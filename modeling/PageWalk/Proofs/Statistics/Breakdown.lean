/-
PageWalk/Proofs/Statistics/Breakdown.lean

What breakdowns hold after the records of a trace.

`Breakdown.Counts` says that a breakdown has at each position and level the
requests of the records whose probe at that position is that level, and no
entry without requests.  A record is registered probe by probe, so what one
registration adds is said for one position (`register_ok`).
-/
import PageWalk.Proofs.Error
import PageWalk.Proofs.Statistics.Latency
import PageWalk.Statistics.Breakdown

namespace PageWalk

namespace Breakdown

/-- The breakdown has its fixed number of positions and lists no level
without requests. -/
structure Tidy (b : Breakdown) : Prop where
  length : b.positions.length = maxProbes
  positive : ∀ levels ∈ b.positions, ∀ e ∈ levels.entries, e.2.val ≠ 0

/-- The breakdown is tidy, and has at each position and level the requests of
the records whose probe at that position is that level. -/
structure Counts (records : List Record) (b : Breakdown) : Prop where
  tidy : b.Tidy
  frequency : ∀ p v, (b.frequency p v).val
    = Record.requestsOf (fun r => r.probes[p]? == some (some v)) records

theorem Counts.empty : Counts [] Breakdown.empty := by
  refine ⟨⟨rfl, ?_⟩, ?_⟩
  · intro levels hlevels e he
    rw [(List.mem_replicate.1 hlevels).2] at he
    cases he
  · intro p v
    unfold Breakdown.frequency Breakdown.empty
    dsimp only
    rw [List.getElem?_replicate]
    split <;> rfl

variable {b b' : Breakdown} {position : Nat} {level : Level} {n : Count}

theorem frequency_of_getElem? {levels : SortedMap Level Count}
    (h : b.positions[position]? = some levels) (v : Level) :
    b.frequency position v = (levels.get? v).getD 0 := by
  unfold frequency
  rw [h, Option.bind_some]

/-- The requests at other positions stay. -/
theorem frequency_set_ne {p : Nat} (hne : p ≠ position) (levels : SortedMap Level Count)
    (v : Level) :
    frequency ⟨b.positions.set position levels⟩ p v = b.frequency p v := by
  unfold frequency
  rw [List.getElem?_set_ne hne.symm]

/-- What a registration does, if it succeeds: nothing, or the level gets a
new entry at its position. -/
theorem register_cases (hok : b.register position level n = .ok b') :
    ∃ levels, b.positions[position]? = some levels ∧
      ((n.val = 0 ∧ b' = b) ∨ (n.val ≠ 0 ∧ ∃ sum : Count,
        sum.val = ((levels.get? level).getD 0).val + n.val ∧
        b' = ⟨b.positions.set position (levels.insert level sum)⟩)) := by
  obtain ⟨probes, -, hok⟩ := bind_eq_ok_iff.1 hok
  split at hok
  · cases hok
  · rename_i levels hlevels
    refine ⟨levels, hlevels, ?_⟩
    split at hok
    · rename_i hzero
      cases hok
      exact Or.inl ⟨hzero, rfl⟩
    · rename_i hne
      obtain ⟨sum, hsum, hok⟩ := bind_eq_ok_iff.1 hok
      cases hok
      exact Or.inr ⟨hne, sum, Counter.plus_eq_ok_iff.1 hsum, rfl⟩

/-- One more registration: the requests of one level at one position grow,
the others are what they were. -/
theorem register_ok (hok : b.register position level n = .ok b') (p : Nat) (v : Level) :
    (b'.frequency p v).val
      = (b.frequency p v).val + if p = position ∧ v = level then n.val else 0 := by
  obtain ⟨levels, hlevels, ⟨hzero, rfl⟩ | ⟨-, sum, hsum, rfl⟩⟩ := register_cases hok
  · rw [hzero, ite_self, Nat.add_zero]
  · by_cases hp : p = position
    · subst hp
      obtain ⟨hlt, -⟩ := List.getElem?_eq_some_iff.1 hlevels
      rw [frequency_of_getElem? (List.getElem?_set_self hlt), frequency_of_getElem? hlevels,
        SortedMap.get?_insert]
      by_cases hv : v = level
      · subst hv
        rw [if_pos rfl, if_pos ⟨rfl, rfl⟩]
        exact hsum
      · rw [if_neg hv, if_neg fun h => hv h.2]
        rfl
    · -- another position
      rw [frequency_set_ne hp, if_neg fun h => hp h.1]
      rfl

theorem Tidy.register (h : b.Tidy) (hok : b.register position level n = .ok b') : b'.Tidy := by
  obtain ⟨levels, hlevels, ⟨-, rfl⟩ | ⟨hne, sum, hsum, rfl⟩⟩ := register_cases hok
  · exact h
  · refine ⟨(List.length_set ..).trans h.length, ?_⟩
    intro levels' hlevels' e he
    rcases List.mem_or_eq_of_mem_set hlevels' with hlevels' | rfl
    · exact h.positive levels' hlevels' e he
    · rcases SortedMap.mem_put he with rfl | he
      · show sum.val ≠ 0
        omega
      · exact h.positive levels (List.mem_of_getElem? hlevels) e he

end Breakdown

end PageWalk
