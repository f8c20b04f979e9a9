/-
PageWalk/Proofs/Statistics/Order.lean

Statistics are determined by the records, in whatever order.

Sums over records do not depend on their order.  A map that lists no key
without requests is determined by its requests (`SortedMap.eq_of_val`), so
what holds the same records is the same (`Counts.unique`).
-/
import PageWalk.Proofs.Statistics.Breakdown

namespace PageWalk

/-! ### Sums over records -/

namespace Record

variable {records records' : List Record}

theorem requests_perm (h : records.Perm records') : requests records = requests records' :=
  (h.map _).sum_eq

theorem requestsOf_perm (h : records.Perm records') (p : Record → Bool) :
    requestsOf p records = requestsOf p records' :=
  requests_perm (h.filter p)

theorem weighted_perm (h : records.Perm records') (f : Record → Nat) :
    weighted f records = weighted f records' :=
  (h.map _).sum_eq

end Record

/-! ### Maps without empty entries -/

/-- Maps to counters that have no zeros are their values. -/
theorem SortedMap.eq_of_val {κ : Type} [Ord κ] [Std.TransOrd κ] [Std.LawfulEqOrd κ]
    {m m' : SortedMap κ Count} (hpos : ∀ e ∈ m.entries, e.2.val ≠ 0)
    (hpos' : ∀ e ∈ m'.entries, e.2.val ≠ 0)
    (h : ∀ k, ((m.get? k).getD 0).val = ((m'.get? k).getD 0).val) : m = m' := by
  apply ext_get?
  intro k
  have hval := h k
  rcases hget : m.get? k with - | n <;> rcases hget' : m'.get? k with - | n' <;>
    rw [hget, hget'] at hval
  · -- a value on one side only would be zero
    exact absurd hval.symm (hpos' _ (mem_entries_iff.2 hget'))
  · exact absurd hval (hpos _ (mem_entries_iff.2 hget))
  · exact congrArg some (Counter.ext hval)

/-! ### Statistics of the same records -/

section Unique

variable {records records' : List Record}

theorem Histogram.Counts.unique {f : Record → Nat} {h h' : Histogram}
    (hp : records.Perm records') (hc : h.Counts f records) (hc' : h'.Counts f records') :
    h = h' := by
  have hcounts : h.counts = h'.counts :=
    SortedMap.eq_of_val hc.positive hc'.positive fun l =>
      (hc.frequency l).trans ((Record.requestsOf_perm hp _).trans (hc'.frequency l).symm)
  cases h
  cases h'
  exact congrArg Histogram.mk hcounts

theorem LatencyStats.Counts.unique {f : Record → Nat} {s s' : LatencyStats}
    (hp : records.Perm records') (hc : s.Counts f records) (hc' : s'.Counts f records') :
    s = s' := by
  have htotal : s.total = s'.total :=
    Counter.ext (hc.total.trans ((Record.weighted_perm hp f).trans hc'.total.symm))
  have hrequests : s.requests = s'.requests :=
    Counter.ext (hc.requests.trans ((Record.requests_perm hp).trans hc'.requests.symm))
  have hhistogram := Histogram.Counts.unique hp hc.histogram hc'.histogram
  cases s
  cases s'
  simp only at htotal hrequests hhistogram
  rw [htotal, hrequests, hhistogram]

theorem Breakdown.Counts.unique {b b' : Breakdown} (hp : records.Perm records')
    (hc : b.Counts records) (hc' : b'.Counts records') : b = b' := by
  have hpositions : b.positions = b'.positions := by
    apply List.ext_getElem (hc.tidy.length.trans hc'.tidy.length.symm)
    intro p hlt hlt'
    apply SortedMap.eq_of_val (hc.tidy.positive _ (List.getElem_mem hlt))
      (hc'.tidy.positive _ (List.getElem_mem hlt'))
    intro v
    rw [← frequency_of_getElem? (List.getElem?_eq_getElem hlt),
      ← frequency_of_getElem? (List.getElem?_eq_getElem hlt'), hc.frequency, hc'.frequency,
      Record.requestsOf_perm hp]
  cases b
  cases b'
  exact congrArg Breakdown.mk hpositions

end Unique

end PageWalk
