/-
PageWalk/Proofs/Costs.lean

When sums of counters fit.  A sum is refused exactly if the numbers add up
to more than a counter holds, and is theirs else: for two counters
(`Counter.plus_of_lt`, `Counter.plus_of_le`), for a list of them
(`Counter.sum_of_lt`, `Counter.sum_of_le`) and for the overheads of a walk.
-/
import PageWalk.Costs
import PageWalk.Proofs.Error
import Mathlib.Algebra.BigOperators.Group.List.Basic
import Mathlib.Algebra.GroupWithZero.Nat

namespace PageWalk

namespace Counter

variable {bits : Nat} {a b c : Counter bits} {cs : List (Counter bits)}

theorem plus_of_lt (h : a.val + b.val < 2 ^ bits) :
    ∃ c, a.plus b = .ok c ∧ c.val = a.val + b.val :=
  ⟨⟨_, h⟩, plus_eq_ok_iff.2 rfl, rfl⟩

theorem plus_of_le (h : 2 ^ bits ≤ a.val + b.val) : a.plus b = .error .sumOverflow := by
  unfold plus
  rw [add?_eq_none_iff.2 h]

theorem plus_error {e : Cause} (h : a.plus b = .error e) : e = .sumOverflow := by
  unfold plus at h
  split at h
  · cases h
  · exact (Except.error.inj h).symm

/-! ### Sums of lists -/

/-- A sum of counters that succeeds is that of their numbers. -/
theorem foldlM_plus_ok (hok : cs.foldlM plus a = .ok c) :
    c.val = a.val + (cs.map (·.val)).sum := by
  induction cs generalizing a with
  | nil =>
    obtain rfl : a = c := Except.ok.inj hok
    rfl
  | cons c' cs ih =>
    rw [List.foldlM_cons] at hok
    obtain ⟨sum, hsum, hok⟩ := bind_eq_ok_iff.1 hok
    rw [ih hok, plus_eq_ok_iff.1 hsum, List.map_cons, List.sum_cons, Nat.add_assoc]

theorem foldlM_plus_of_lt (h : a.val + (cs.map (·.val)).sum < 2 ^ bits) :
    ∃ c, cs.foldlM plus a = .ok c := by
  induction cs generalizing a with
  | nil => exact ⟨a, rfl⟩
  | cons c' cs ih =>
    rw [List.map_cons, List.sum_cons, ← Nat.add_assoc] at h
    obtain ⟨sum, hplus, hsum⟩ := plus_of_lt (Nat.lt_of_le_of_lt (Nat.le_add_right _ _) h)
    rw [List.foldlM_cons, hplus]
    exact ih (hsum ▸ h)

theorem foldlM_plus_of_le (h : 2 ^ bits ≤ a.val + (cs.map (·.val)).sum) :
    cs.foldlM plus a = .error .sumOverflow := by
  induction cs generalizing a with
  | nil => exact absurd a.val_lt (Nat.not_lt.2 h)
  | cons c' cs ih =>
    rw [List.map_cons, List.sum_cons, ← Nat.add_assoc] at h
    rw [List.foldlM_cons]
    rcases Nat.lt_or_ge (a.val + c'.val) (2 ^ bits) with hlt | hge
    · obtain ⟨sum, hplus, hsum⟩ := plus_of_lt hlt
      rw [hplus]
      exact ih (hsum ▸ h)
    · rw [plus_of_le hge]
      rfl

theorem sum_of_lt (cs : List (Counter bits)) (h : (cs.map (·.val)).sum < 2 ^ bits) :
    ∃ c, sum cs = .ok c ∧ c.val = (cs.map (·.val)).sum := by
  obtain ⟨c, hc⟩ := foldlM_plus_of_lt (a := 0) (by rwa [val_zero, Nat.zero_add])
  exact ⟨c, hc, by rw [foldlM_plus_ok hc, val_zero, Nat.zero_add]⟩

theorem sum_of_le (h : 2 ^ bits ≤ (cs.map (·.val)).sum) : sum cs = .error .sumOverflow :=
  foldlM_plus_of_le (by rwa [val_zero, Nat.zero_add])

end Counter

/-! ### Overheads -/

namespace Overheads

/-- The overhead of looking up one walk cache after the other. -/
def serialCycles (o : Overheads) : Nat := o.hash.val + o.pudCwc.val + o.pmdCwc.val

/-- The overhead of looking up both walk caches at once. -/
def parallelCycles (o : Overheads) : Nat := o.hash.val + max o.pudCwc.val o.pmdCwc.val

/-- What is gained by looking up both walk caches at once: the faster of
them. -/
def gainedCycles (o : Overheads) : Nat := min o.pudCwc.val o.pmdCwc.val

variable {o : Overheads}

theorem parallelCycles_add_gainedCycles : o.parallelCycles + o.gainedCycles = o.serialCycles := by
  unfold parallelCycles gainedCycles serialCycles
  omega

theorem serial_ok {c : Count} (h : o.serial = .ok c) : c.val = o.serialCycles := by
  obtain ⟨sum, hsum, h⟩ := bind_eq_ok_iff.1 h
  rw [Counter.plus_eq_ok_iff.1 h, Counter.plus_eq_ok_iff.1 hsum]
  rfl

theorem parallel_ok {c : Count} (h : o.parallel = .ok c) : c.val = o.parallelCycles := by
  unfold parallel at h
  rw [Counter.plus_eq_ok_iff.1 h, Counter.val_max]
  rfl

theorem serial_of_lt (h : o.serialCycles < 2 ^ 64) :
    ∃ c, o.serial = .ok c ∧ c.val = o.serialCycles := by
  unfold serialCycles at h
  obtain ⟨sum, hplus, hsum⟩ := Counter.plus_of_lt (a := o.hash) (b := o.pudCwc) (by omega)
  obtain ⟨c, hc, hval⟩ := Counter.plus_of_lt (a := sum) (b := o.pmdCwc) (by omega)
  refine ⟨c, ?_, by rw [hval, hsum]; rfl⟩
  unfold serial
  rw [hplus]
  exact hc

theorem serial_of_le (h : 2 ^ 64 ≤ o.serialCycles) : o.serial = .error .sumOverflow := by
  unfold serialCycles at h
  unfold serial
  rcases Nat.lt_or_ge (o.hash.val + o.pudCwc.val) (2 ^ 64) with hlt | hge
  · obtain ⟨sum, hplus, hsum⟩ := Counter.plus_of_lt hlt
    rw [hplus]
    exact Counter.plus_of_le (hsum ▸ h)
  · rw [Counter.plus_of_le hge]
    rfl

theorem parallel_of_lt (h : o.parallelCycles < 2 ^ 64) :
    ∃ c, o.parallel = .ok c ∧ c.val = o.parallelCycles := by
  obtain ⟨c, hc, hval⟩ := Counter.plus_of_lt (a := o.hash) (b := o.pudCwc.max o.pmdCwc)
    (by rw [Counter.val_max]; exact h)
  exact ⟨c, hc, parallel_ok hc⟩

end Overheads

end PageWalk
