/-
PageWalk/Proofs/Comparison/Join.lean

No benchmark is dropped from a comparison, and none is mixed up with another.

A join succeeds exactly if both tables have the same keys, and gives at each
key what the tables have there (`join_eq_ok_iff`, `get?_of_join`).  If it
fails, it tells the two sets of keys apart (`join_eq_error`).  A comparison
is three joins, so it succeeds exactly if all tables list the same benchmarks,
those without a latency aside (`comparison_keeps_benchmarks`).
-/
import PageWalk.Comparison.Basic
import PageWalk.Proofs.Error
import PageWalk.Proofs.SortedMap

namespace PageWalk

/-! ### Joins -/

section Join

variable {α β : Type} {left : SortedMap String α} {right : SortedMap String β}
  {joined : SortedMap String (α × β)}

/-- Two lists tell two sets of keys apart: each lists what one set has and the
other lacks, in ascending order and without repetition. -/
structure TellsApart (left right : String → Prop) (onlyLeft onlyRight : List String) : Prop where
  ascendingLeft : onlyLeft.Pairwise (· < ·)
  ascendingRight : onlyRight.Pairwise (· < ·)
  mem_left : ∀ k, k ∈ onlyLeft ↔ left k ∧ ¬ right k
  mem_right : ∀ k, k ∈ onlyRight ↔ right k ∧ ¬ left k

theorem mem_keysOnlyIn {k : String} : k ∈ keysOnlyIn left right ↔ k ∈ left.keys ∧ k ∉ right.keys := by
  unfold keysOnlyIn
  rw [List.mem_filter, Bool.not_eq_true', ← Bool.not_eq_true, SortedMap.contains_iff]

theorem ascending_keysOnlyIn (left : SortedMap String α) (right : SortedMap String β) :
    (keysOnlyIn left right).Pairwise (· < ·) :=
  (left.ascending_keys.imp fun h => compareOfLessAndEq_eq_lt.1 h).filter _

theorem tellsApart_keysOnlyIn (left : SortedMap String α) (right : SortedMap String β) :
    TellsApart (· ∈ left.keys) (· ∈ right.keys) (keysOnlyIn left right) (keysOnlyIn right left) :=
  ⟨ascending_keysOnlyIn left right, ascending_keysOnlyIn right left, fun _ => mem_keysOnlyIn,
    fun _ => mem_keysOnlyIn⟩

theorem keysOnlyIn_eq_nil : keysOnlyIn left right = [] ↔ ∀ k ∈ left.keys, k ∈ right.keys := by
  rw [List.eq_nil_iff_forall_not_mem]
  refine forall_congr' fun k => ?_
  rw [mem_keysOnlyIn, not_and, not_not]

/-- **Tables of different keys** are not joined, and the error tells their keys
apart. -/
theorem join_eq_error (h : ¬ ∀ k, k ∈ left.keys ↔ k ∈ right.keys) :
    join left right = .error (.keyMismatch (keysOnlyIn left right) (keysOnlyIn right left)) := by
  unfold join
  refine if_neg ?_
  rw [Bool.and_eq_true, List.isEmpty_iff, List.isEmpty_iff, keysOnlyIn_eq_nil, keysOnlyIn_eq_nil]
  rintro ⟨hleft, hright⟩
  exact h fun k => ⟨hleft k, hright k⟩

/-- **Tables of the same keys** are joined. -/
theorem join_eq_ok_iff :
    (∃ joined, join left right = .ok joined) ↔ ∀ k, k ∈ left.keys ↔ k ∈ right.keys := by
  constructor
  · rintro ⟨joined, hok⟩
    by_contra hkeys
    rw [join_eq_error hkeys] at hok
    cases hok
  · intro hkeys
    refine ⟨_, if_pos ?_⟩
    rw [Bool.and_eq_true, List.isEmpty_iff, List.isEmpty_iff, keysOnlyIn_eq_nil,
      keysOnlyIn_eq_nil]
    exact ⟨fun k => (hkeys k).1, fun k => (hkeys k).2⟩

/-- A join has at each key what both tables have there. -/
theorem get?_of_join (hok : join left right = .ok joined) (k : String) :
    joined.get? k = (left.get? k).bind fun a => (right.get? k).map fun b => (a, b) := by
  unfold join at hok
  dsimp only at hok
  split at hok
  · cases hok
    exact SortedMap.get?_filterMap _ left k
  · cases hok

/-- A value of a join belongs to its own key on both sides. -/
theorem get?_of_join_eq_some (hok : join left right = .ok joined) {k : String} {ab : α × β} :
    joined.get? k = some ab ↔ left.get? k = some ab.1 ∧ right.get? k = some ab.2 := by
  rw [get?_of_join hok]
  cases left.get? k <;> cases right.get? k <;> simp [Prod.ext_iff]

theorem mem_keys_of_join (hok : join left right = .ok joined) (k : String) :
    k ∈ joined.keys ↔ k ∈ left.keys := by
  have hkeys := join_eq_ok_iff.1 ⟨joined, hok⟩ k
  rw [SortedMap.mem_keys_iff, SortedMap.mem_keys_iff] at hkeys ⊢
  constructor
  · rintro ⟨ab, hab⟩
    exact ⟨ab.1, ((get?_of_join_eq_some hok).1 hab).1⟩
  · rintro ⟨a, ha⟩
    obtain ⟨b, hb⟩ := hkeys.1 ⟨a, ha⟩
    exact ⟨(a, b), (get?_of_join_eq_some hok).2 ⟨ha, hb⟩⟩

end Join

/-! ### Latencies -/

namespace LatencyTable

/-- The row of a benchmark has a summary and no error. -/
def Succeeded (t : LatencyTable) (benchmark : String) : Prop :=
  ∃ s, t.rows.get? benchmark = some { summary := some s, error := none }

theorem Row.latency?_eq_some {row : Row} {metric : Metric} {x : Float} :
    row.latency? metric = some x ↔
      ∃ s, row = { summary := some s, error := none } ∧ s.pageWalkLatency metric = x := by
  unfold latency?
  split
  · simp
  · rename_i h
    refine iff_of_false nofun ?_
    rintro ⟨s, rfl, -⟩
    exact h s rfl

theorem get?_latencies {t : LatencyTable} {metric : Metric} {benchmark : String} {x : Float} :
    (t.latencies metric).get? benchmark = some x ↔
      ∃ s, t.rows.get? benchmark = some { summary := some s, error := none } ∧
        s.pageWalkLatency metric = x := by
  unfold latencies
  rw [SortedMap.get?_filterMap, Option.bind_eq_some_iff]
  simp only [Row.latency?_eq_some]
  constructor
  · rintro ⟨row, hrow, s, rfl, hx⟩
    exact ⟨s, hrow, hx⟩
  · rintro ⟨s, hrow, hx⟩
    exact ⟨_, hrow, s, rfl, hx⟩

theorem mem_keys_latencies (metric : Metric) {t : LatencyTable} {benchmark : String} :
    benchmark ∈ (t.latencies metric).keys ↔ t.Succeeded benchmark := by
  rw [SortedMap.mem_keys_iff]
  simp only [get?_latencies]
  constructor
  · rintro ⟨x, s, hrow, -⟩
    exact ⟨s, hrow⟩
  · rintro ⟨s, hrow⟩
    exact ⟨_, s, hrow, rfl⟩

end LatencyTable

/-! ### Instructions per cycle -/

section Ipc

variable {access : AccessTable} {latencies : LatencyTable} {metric : Metric} {ipc : IpcTable}

theorem IpcTable.of_eq_ok_iff :
    (∃ ipc, IpcTable.of access latencies metric = .ok ipc) ↔
      ∀ b, b ∈ access.keys ↔ latencies.Succeeded b := by
  simp only [← LatencyTable.mem_keys_latencies metric, ← join_eq_ok_iff]
  unfold IpcTable.of
  constructor
  · rintro ⟨ipc, hok⟩
    obtain ⟨joined, hjoin, -⟩ := bind_eq_ok_iff.1 hok
    exact ⟨joined, hjoin⟩
  · rintro ⟨joined, hjoin⟩
    exact ⟨_, bind_eq_ok_iff.2 ⟨joined, hjoin, rfl⟩⟩

theorem IpcTable.mem_keys_of (hok : IpcTable.of access latencies metric = .ok ipc) (b : String) :
    b ∈ ipc.keys ↔ b ∈ access.keys := by
  obtain ⟨joined, hjoin, heq⟩ := bind_eq_ok_iff.1 hok
  cases heq
  rw [SortedMap.keys_map, mem_keys_of_join hjoin]

/-- The instructions per cycle of a benchmark come from its own rates and its
own latency. -/
theorem IpcTable.get?_of (hok : IpcTable.of access latencies metric = .ok ipc) {b : String}
    {x : Float} (hx : ipc.get? b = some x) :
    ∃ rates s, access.get? b = some rates ∧
      latencies.rows.get? b = some { summary := some s, error := none } ∧
      x = rates.ipc (s.pageWalkLatency metric) := by
  obtain ⟨joined, hjoin, heq⟩ := bind_eq_ok_iff.1 hok
  cases heq
  rw [SortedMap.get?_map] at hx
  obtain ⟨⟨rates, latency⟩, hget, rfl⟩ := Option.map_eq_some_iff.1 hx
  obtain ⟨hrates, hlatency⟩ := (get?_of_join_eq_some hjoin).1 hget
  obtain ⟨s, hrow, rfl⟩ := LatencyTable.get?_latencies.1 hlatency
  exact ⟨rates, s, hrates, hrow, rfl⟩

end Ipc

/-! ### Comparisons -/

namespace Comparison

variable {baseline candidate : IpcTable} {c : Comparison}

theorem of_ok (hok : Comparison.of baseline candidate = .ok c) :
    ∃ joined, join baseline candidate = .ok joined ∧
      c.rows = joined.map (fun _ bc => Row.of bc.1 bc.2) ∧ ∃ b, b ∈ joined.keys := by
  obtain ⟨joined, hjoin, hok⟩ := bind_eq_ok_iff.1 hok
  dsimp only at hok
  split at hok
  · cases hok
  · rename_i hne
    cases hok
    refine ⟨joined, hjoin, rfl, ?_⟩
    rw [SortedMap.isEmpty_iff, SortedMap.keys_map] at hne
    exact not_forall_not.1 hne

theorem of_eq_ok_iff :
    (∃ c, Comparison.of baseline candidate = .ok c) ↔
      (∀ b, b ∈ baseline.keys ↔ b ∈ candidate.keys) ∧ ∃ b, b ∈ baseline.keys := by
  constructor
  · rintro ⟨c, hok⟩
    obtain ⟨joined, hjoin, -, b, hb⟩ := of_ok hok
    exact ⟨join_eq_ok_iff.1 ⟨joined, hjoin⟩, b, (mem_keys_of_join hjoin b).1 hb⟩
  · rintro ⟨hkeys, b, hb⟩
    obtain ⟨joined, hjoin⟩ := join_eq_ok_iff.2 hkeys
    refine ⟨_, bind_eq_ok_iff.2 ⟨joined, hjoin, if_neg ?_⟩⟩
    rw [SortedMap.isEmpty_iff, SortedMap.keys_map]
    exact fun hnone => hnone b ((mem_keys_of_join hjoin b).2 hb)

theorem mem_keys_of (hok : Comparison.of baseline candidate = .ok c) (b : String) :
    b ∈ c.rows.keys ↔ b ∈ baseline.keys := by
  obtain ⟨joined, hjoin, hrows, -⟩ := of_ok hok
  rw [hrows, SortedMap.keys_map, mem_keys_of_join hjoin]

theorem get?_of (hok : Comparison.of baseline candidate = .ok c) {b : String} {row : Row}
    (hrow : c.rows.get? b = some row) :
    baseline.get? b = some row.baseline ∧ candidate.get? b = some row.candidate ∧
      row.speedup = row.candidate / row.baseline := by
  obtain ⟨joined, hjoin, hrows, -⟩ := of_ok hok
  rw [hrows, SortedMap.get?_map] at hrow
  obtain ⟨xy, hget, rfl⟩ := Option.map_eq_some_iff.1 hrow
  obtain ⟨hx, hy⟩ := (get?_of_join_eq_some hjoin).1 hget
  exact ⟨hx, hy, rfl⟩

/-- Tables of rates and latencies come to a comparison: both sides have
instructions per cycle, and these are compared. -/
def ComesTo (metric : Metric) (access : AccessTable) (latencies : LatencyTable)
    (access' : AccessTable) (latencies' : LatencyTable) (c : Comparison) : Prop :=
  ∃ baseline candidate, IpcTable.of access latencies metric = .ok baseline ∧
    IpcTable.of access' latencies' metric = .ok candidate ∧
    Comparison.of baseline candidate = .ok c

section Sides

variable {metric : Metric} {access access' : AccessTable} {latencies latencies' : LatencyTable}

/-- What a comparison needs, and that this is enough. -/
theorem exists_comesTo_iff :
    (∃ c, ComesTo metric access latencies access' latencies' c) ↔
      (∀ b, b ∈ access.keys ↔ latencies.Succeeded b) ∧
      (∀ b, b ∈ access'.keys ↔ latencies'.Succeeded b) ∧
      (∀ b, b ∈ access.keys ↔ b ∈ access'.keys) ∧ ∃ b, b ∈ access.keys := by
  constructor
  · rintro ⟨c, baseline, candidate, hbase, hcand, hok⟩
    obtain ⟨hkeys, b, hb⟩ := of_eq_ok_iff.1 ⟨c, hok⟩
    refine ⟨IpcTable.of_eq_ok_iff.1 ⟨_, hbase⟩, IpcTable.of_eq_ok_iff.1 ⟨_, hcand⟩, fun b => ?_, b,
      (IpcTable.mem_keys_of hbase b).1 hb⟩
    rw [← IpcTable.mem_keys_of hbase, hkeys, IpcTable.mem_keys_of hcand]
  · rintro ⟨hleft, hright, hkeys, b, hb⟩
    obtain ⟨baseline, hbase⟩ := IpcTable.of_eq_ok_iff.2 hleft
    obtain ⟨candidate, hcand⟩ := IpcTable.of_eq_ok_iff.2 hright
    have hsame : ∀ b, b ∈ baseline.keys ↔ b ∈ candidate.keys := by
      intro b
      rw [IpcTable.mem_keys_of hbase, hkeys, IpcTable.mem_keys_of hcand]
    obtain ⟨c, hok⟩ := of_eq_ok_iff.2 ⟨hsame, b, (IpcTable.mem_keys_of hbase b).2 hb⟩
    exact ⟨c, baseline, candidate, hbase, hcand, hok⟩

/-- A row is made from what either side has of its benchmark. -/
theorem ComesTo.get? (h : ComesTo metric access latencies access' latencies' c) {b : String}
    {row : Row} (hrow : c.rows.get? b = some row) : ∃ rates rates' s s',
      access.get? b = some rates ∧ access'.get? b = some rates' ∧
      latencies.rows.get? b = some { summary := some s, error := none } ∧
      latencies'.rows.get? b = some { summary := some s', error := none } ∧
      row.baseline = rates.ipc (s.pageWalkLatency metric) ∧
      row.candidate = rates'.ipc (s'.pageWalkLatency metric) ∧
      row.speedup = row.candidate / row.baseline := by
  obtain ⟨baseline, candidate, hbase, hcand, hok⟩ := h
  obtain ⟨hx, hy, hspeedup⟩ := get?_of hok hrow
  obtain ⟨rates, s, hrates, hs, hx⟩ := IpcTable.get?_of hbase hx
  obtain ⟨rates', s', hrates', hs', hy⟩ := IpcTable.get?_of hcand hy
  exact ⟨rates, rates', s, s', hrates, hrates', hs, hs', hx, hy, hspeedup⟩

/-- Rates and latencies of different benchmarks. -/
theorem ipcTable_of_eq_error (hkeys : ¬ ∀ b, b ∈ access.keys ↔ latencies.Succeeded b) :
    ∃ onlyLeft onlyRight,
      IpcTable.of access latencies metric = .error (.keyMismatch onlyLeft onlyRight) ∧
      TellsApart (· ∈ access.keys) latencies.Succeeded onlyLeft onlyRight := by
  have hapart := tellsApart_keysOnlyIn access (latencies.latencies metric)
  simp only [← LatencyTable.mem_keys_latencies metric] at hkeys
  have hsucceeded : (· ∈ (latencies.latencies metric).keys) = latencies.Succeeded := by
    funext b
    exact propext (LatencyTable.mem_keys_latencies metric)
  rw [hsucceeded] at hapart
  refine ⟨_, _, ?_, hapart⟩
  unfold IpcTable.of
  rw [join_eq_error hkeys]
  rfl

/-- Sides of different benchmarks. -/
theorem of_eq_error (hkeys : ¬ ∀ b, b ∈ baseline.keys ↔ b ∈ candidate.keys) :
    ∃ onlyLeft onlyRight,
      Comparison.of baseline candidate = .error (.keyMismatch onlyLeft onlyRight) ∧
      TellsApart (· ∈ baseline.keys) (· ∈ candidate.keys) onlyLeft onlyRight := by
  refine ⟨_, _, ?_, tellsApart_keysOnlyIn baseline candidate⟩
  unfold Comparison.of
  rw [join_eq_error hkeys]
  rfl

end Sides

/-- **A comparison keeps all benchmarks, each with its own values.**  Access
rates and latencies of two designs come to a comparison exactly if on each
side the benchmarks with rates are those whose row succeeded, both sides have
the same, and there is one.  The comparison then has these benchmarks, and
each row the instructions per cycle that the rates and the latency of its own
benchmark give on either side, and their quotient.  A join of different
benchmarks fails and tells, in order, those of either side alone. -/
theorem comparison_keeps_benchmarks (metric : Metric) :
    (∀ (access access' : AccessTable) (latencies latencies' : LatencyTable),
      ((∃ c, ComesTo metric access latencies access' latencies' c) ↔
        (∀ b, b ∈ access.keys ↔ latencies.Succeeded b) ∧
        (∀ b, b ∈ access'.keys ↔ latencies'.Succeeded b) ∧
        (∀ b, b ∈ access.keys ↔ b ∈ access'.keys) ∧ ∃ b, b ∈ access.keys) ∧
      ∀ c, ComesTo metric access latencies access' latencies' c →
        (∀ b, b ∈ c.rows.keys ↔ b ∈ access.keys) ∧
        ∀ b row, c.rows.get? b = some row → ∃ rates rates' s s',
          access.get? b = some rates ∧ access'.get? b = some rates' ∧
          latencies.rows.get? b = some { summary := some s, error := none } ∧
          latencies'.rows.get? b = some { summary := some s', error := none } ∧
          row.baseline = rates.ipc (s.pageWalkLatency metric) ∧
          row.candidate = rates'.ipc (s'.pageWalkLatency metric) ∧
          row.speedup = row.candidate / row.baseline) ∧
    (∀ (access : AccessTable) (latencies : LatencyTable),
      (¬ ∀ b, b ∈ access.keys ↔ latencies.Succeeded b) →
      ∃ onlyLeft onlyRight,
        IpcTable.of access latencies metric = .error (.keyMismatch onlyLeft onlyRight) ∧
        TellsApart (· ∈ access.keys) latencies.Succeeded onlyLeft onlyRight) ∧
    (∀ baseline candidate : IpcTable, (¬ ∀ b, b ∈ baseline.keys ↔ b ∈ candidate.keys) →
      ∃ onlyLeft onlyRight,
        Comparison.of baseline candidate = .error (.keyMismatch onlyLeft onlyRight) ∧
        TellsApart (· ∈ baseline.keys) (· ∈ candidate.keys) onlyLeft onlyRight) := by
  refine ⟨fun access access' latencies latencies' => ⟨exists_comesTo_iff, ?_⟩, ?_, ?_⟩
  · rintro c ⟨baseline, candidate, hbase, hcand, hok⟩
    refine ⟨fun b => (mem_keys_of hok b).trans (IpcTable.mem_keys_of hbase b), ?_⟩
    intro b row hrow
    exact ComesTo.get? ⟨baseline, candidate, hbase, hcand, hok⟩ hrow
  · intro access latencies hkeys
    exact ipcTable_of_eq_error hkeys
  · intro baseline candidate hkeys
    exact of_eq_error hkeys

/-- Two benchmarks of either design, in different orders and next to a row that
failed; and rates of a benchmark that has no latency. -/
theorem comparison_keeps_benchmarks_of_two :
    let mcf : AccessRates := ⟨100.0, 90.0, 1.0, 10.0⟩
    let gups : AccessRates := ⟨40.0, 20.0, 1.0, 20.0⟩
    let access : AccessTable := (SortedMap.empty.insert "mcf" mcf).insert "gups" gups
    let access' : AccessTable := (SortedMap.empty.insert "gups" gups).insert "mcf" mcf
    let radix : LatencyTable :=
      (((LatencyTable.empty .radix).insert "mcf" (.ofSummary (.radix ⟨204.0, .ofNat 10⟩))).insert
        "gups" (.ofSummary (.radix ⟨141.0, .ofNat 15⟩))).insert "bfs" (.failed "no log")
    let ecpt : LatencyTable :=
      ((LatencyTable.empty .ecpt).insert "gups"
          (.ofSummary (.ecpt ⟨90.0, 80.0, 70.0, 0, 0.0, .ofNat 9⟩))).insert "mcf"
        (.ofSummary (.ecpt ⟨210.0, 64.0, 60.0, .ofNat 730, 146.0, .ofNat 5⟩))
    (∃ c row, ComesTo .parallel access radix access' ecpt c ∧ c.rows.get? "mcf" = some row ∧
      row.baseline = mcf.ipc 204.0 ∧ row.candidate = mcf.ipc 60.0 ∧ "bfs" ∉ c.rows.keys) ∧
    ∃ onlyLeft onlyRight,
      IpcTable.of (access.insert "bfs" mcf) radix .max = .error (.keyMismatch onlyLeft onlyRight) ∧
      onlyLeft = ["bfs"] ∧ onlyRight = [] ∧
      TellsApart (· ∈ (access.insert "bfs" mcf).keys) radix.Succeeded onlyLeft onlyRight := by
  intro mcf gups access access' radix ecpt
  have hradix : ∀ b, b ∈ access.keys ↔ radix.Succeeded b := by
    intro b
    rw [← LatencyTable.mem_keys_latencies .parallel]
    have hkeys : (radix.latencies .parallel).keys = access.keys := by decide +kernel
    rw [hkeys]
  have hecpt : ∀ b, b ∈ access'.keys ↔ ecpt.Succeeded b := by
    intro b
    rw [← LatencyTable.mem_keys_latencies .parallel]
    have hkeys : (ecpt.latencies .parallel).keys = access'.keys := by decide +kernel
    rw [hkeys]
  have hsame : access.keys = access'.keys := by decide +kernel
  constructor
  · obtain ⟨hiff, hholds⟩ := (comparison_keeps_benchmarks .parallel).1 access access' radix ecpt
    obtain ⟨c, hc⟩ := hiff.2
      ⟨hradix, hecpt, fun b => by rw [hsame], "mcf", by decide +kernel⟩
    obtain ⟨hkeys, hrows⟩ := hholds c hc
    obtain ⟨row, hrow⟩ := SortedMap.mem_keys_iff.1 ((hkeys "mcf").2 (by decide +kernel))
    obtain ⟨rates, rates', s, s', hrates, hrates', hs, hs', hx, hy, -⟩ := hrows "mcf" row hrow
    have h : access.get? "mcf" = some mcf := by decide +kernel
    have h' : access'.get? "mcf" = some mcf := by decide +kernel
    obtain rfl := Option.some.inj (h.symm.trans hrates)
    obtain rfl := Option.some.inj (h'.symm.trans hrates')
    have hlatency : s.pageWalkLatency .parallel = 204.0 := by
      have hrow : radix.rows.get? "mcf" = some ⟨some (.radix ⟨204.0, .ofNat 10⟩), none⟩ := by
        decide +kernel
      rw [hrow] at hs
      cases hs
      rfl
    have hlatency' : s'.pageWalkLatency .parallel = 60.0 := by
      have hrow : ecpt.rows.get? "mcf"
          = some ⟨some (.ecpt ⟨210.0, 64.0, 60.0, .ofNat 730, 146.0, .ofNat 5⟩), none⟩ := by
        decide +kernel
      rw [hrow] at hs'
      cases hs'
      rfl
    refine ⟨c, row, hc, hrow, hlatency ▸ hx, hlatency' ▸ hy, ?_⟩
    rw [hkeys]
    decide +kernel
  · have hfailed : ¬ ∀ b, b ∈ (access.insert "bfs" mcf).keys ↔ radix.Succeeded b := by
      intro h
      have hbfs := (h "bfs").1 (by decide +kernel)
      rw [← hradix] at hbfs
      revert hbfs
      decide +kernel
    obtain ⟨onlyLeft, onlyRight, herror, hapart⟩ :=
      (comparison_keeps_benchmarks .max).2.1 (access.insert "bfs" mcf) radix hfailed
    have hcause : (match IpcTable.of (access.insert "bfs" mcf) radix .max with
        | .error c => some c
        | .ok _ => none) = some (.keyMismatch ["bfs"] []) := by
      decide +kernel
    rw [herror] at hcause
    cases hcause
    exact ⟨_, _, herror, rfl, rfl, hapart⟩

end Comparison

end PageWalk
