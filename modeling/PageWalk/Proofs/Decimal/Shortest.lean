/-
PageWalk/Proofs/Decimal/Shortest.lean

The shortest decimal of a double rounds to it.

The interval that the search works on is that of `Rounds`, over a common
denominator and in units of a power of ten (`holds_inUnits_iff`), so any
hit rounds to the double.  The search has one at last, because the finest
of its grids is finer than half the interval (`holds_above`).
-/
import PageWalk.Decimal.Shortest
import PageWalk.Proofs.Decimal.Nearest
import Mathlib.Data.Nat.Cast.Order.Field

namespace PageWalk.Decimal

open Double (Parts Rounds lowerEnd two_zpow_pos)

/-! ### The interval over its denominator -/

namespace Interval

variable {m : Nat} {q : Int}

theorem ratio_eq (n : Nat) (q : Int) :
    ((Double.ratio n q).1 : ℚ) / (Double.ratio n q).2 = n * 2 ^ q := by
  unfold Double.ratio
  split
  · rename_i hq
    obtain ⟨k, rfl⟩ := Int.eq_ofNat_of_zero_le hq
    show ((n * 2 ^ k : Nat) : ℚ) / (1 : Nat) = _
    rw [zpow_natCast]
    push_cast
    rw [div_one]
  · rename_i hq
    obtain ⟨k, rfl⟩ := Int.exists_eq_neg_ofNat (not_le.1 hq).le
    show (n : ℚ) / (2 ^ (- -(k : Int)).toNat : Nat) = _
    rw [neg_neg, Int.toNat_natCast, zpow_neg, zpow_natCast, ← div_eq_mul_inv]
    push_cast
    rfl

theorem ratio_snd_pos (m : Nat) (q : Int) : 0 < (Double.ratio m q).2 := by
  unfold Double.ratio
  split
  · exact one_pos
  · exact Nat.pow_pos two_pos

/-- An interval in units of `10 ^ k` is the same interval, divided by
`10 ^ k`. -/
theorem inUnits_eq (i : Interval) (k : Int) :
    ((i.inUnits k).lower / (i.inUnits k).denominator : ℚ) = i.lower / i.denominator / 10 ^ k ∧
      ((i.inUnits k).value / (i.inUnits k).denominator : ℚ) = i.value / i.denominator / 10 ^ k ∧
      ((i.inUnits k).upper / (i.inUnits k).denominator : ℚ) = i.upper / i.denominator / 10 ^ k := by
  unfold inUnits
  split
  · rename_i hk
    obtain ⟨n, rfl⟩ := Int.eq_ofNat_of_zero_le hk
    have hden : ((i.denominator * Nat.pow 10 n : Nat) : ℚ) = i.denominator * 10 ^ n := by
      rw [Nat.cast_mul]
      show _ * ((10 ^ n : Nat) : ℚ) = _
      push_cast
      rfl
    simp only [Int.toNat_natCast, hden, zpow_natCast, div_div, and_self]
  · rename_i hk
    obtain ⟨n, rfl⟩ := Int.exists_eq_neg_ofNat (not_le.1 hk).le
    have hmul : ∀ a : Nat, ((a * Nat.pow 10 n : Nat) : ℚ) = a * 10 ^ n := by
      intro a
      rw [Nat.cast_mul]
      show _ * ((10 ^ n : Nat) : ℚ) = _
      push_cast
      rfl
    simp only [neg_neg, Int.toNat_natCast, hmul, zpow_neg, zpow_natCast, div_inv_eq_mul,
      mul_div_right_comm, and_self]

theorem denominator_pos (m : Nat) (q : Int) (k : Int) :
    0 < ((ofParts m q).inUnits k).denominator := by
  have hpos : 0 < (ofParts m q).denominator := ratio_snd_pos 1 (q - 2)
  unfold inUnits
  split
  · exact Nat.mul_pos hpos (Nat.pow_pos (by norm_num))
  · exact hpos

/-- Four times a value over the denominator is in units of `2 ^ q`. -/
theorem ofParts_eq (m : Nat) (q : Int) :
    ((ofParts m q).lower / (ofParts m q).denominator : ℚ) = lowerEnd m q / 4 * 2 ^ q ∧
      ((ofParts m q).value / (ofParts m q).denominator : ℚ) = m * 2 ^ q ∧
      ((ofParts m q).upper / (ofParts m q).denominator : ℚ) = (4 * m + 2) / 4 * 2 ^ q := by
  have hratio : ∀ n : Nat, ((n * (Double.ratio 1 (q - 2)).1 : Nat) : ℚ)
      / (Double.ratio 1 (q - 2)).2 = n / 4 * 2 ^ q := by
    intro n
    rw [Nat.cast_mul, mul_div_assoc, ratio_eq, zpow_sub₀ two_ne_zero]
    push_cast
    ring
  refine ⟨hratio _, ?_, ?_⟩
  · refine (hratio (4 * m)).trans ?_
    push_cast
    ring
  · refine (hratio (4 * m + 2)).trans ?_
    push_cast
    ring

/-- **The grids meet the interval where decimals round to the double.** -/
theorem holds_inUnits_iff (m : Nat) (q k : Int) (n : Nat) :
    ((ofParts m q).inUnits k).holds n = true ↔ Rounds m q (n * 10 ^ k) := by
  obtain ⟨hlow, -, hup⟩ := inUnits_eq (ofParts m q) k
  rw [(ofParts_eq m q).1] at hlow
  rw [(ofParts_eq m q).2.2] at hup
  have hclosed : ((ofParts m q).inUnits k).closed = (m % 2 == 0) := by
    unfold inUnits
    split <;> rfl
  have hden : (0 : ℚ) < ((ofParts m q).inUnits k).denominator := by
    exact_mod_cast denominator_pos m q k
  have h2 := two_zpow_pos q
  have h10 : (0 : ℚ) < 10 ^ k := zpow_pos (by norm_num) k
  unfold holds Rounds
  rw [hclosed]
  generalize ((ofParts m q).inUnits k).lower = low at *
  generalize ((ofParts m q).inUnits k).upper = up at *
  generalize ((ofParts m q).inUnits k).denominator = den at *
  -- both comparisons are the same, up to a positive factor
  obtain ⟨c, hc, hlowc, hupc, hnc⟩ : ∃ c : ℚ, 0 < c ∧ low = lowerEnd m q * c ∧
      up = (4 * m + 2) * c ∧ n * den = 4 * (n * 10 ^ k / 2 ^ q) * c := by
    refine ⟨2 ^ q * den / (4 * 10 ^ k), by positivity, ?_, ?_, ?_⟩
    · rw [div_eq_iff hden.ne'] at hlow
      rw [hlow]; field_simp
    · rw [div_eq_iff hden.ne'] at hup
      rw [hup]; field_simp
    · field_simp
  have hlow' : ((lowerEnd m q : ℚ) ≤ 4 * (n * 10 ^ k / 2 ^ q) ↔ low ≤ n * den) ∧
      ((lowerEnd m q : ℚ) < 4 * (n * 10 ^ k / 2 ^ q) ↔ low < n * den) := by
    rw [← Nat.cast_le (α := ℚ), ← Nat.cast_lt (α := ℚ), Nat.cast_mul, hlowc, hnc]
    exact ⟨(mul_le_mul_iff_of_pos_right hc).symm, (mul_lt_mul_iff_of_pos_right hc).symm⟩
  have hup' : (4 * ((n : ℚ) * 10 ^ k / 2 ^ q) ≤ 4 * m + 2 ↔ n * den ≤ up) ∧
      (4 * ((n : ℚ) * 10 ^ k / 2 ^ q) < 4 * m + 2 ↔ n * den < up) := by
    rw [← Nat.cast_le (α := ℚ), ← Nat.cast_lt (α := ℚ), Nat.cast_mul, hupc, hnc]
    exact ⟨(mul_le_mul_iff_of_pos_right hc).symm, (mul_lt_mul_iff_of_pos_right hc).symm⟩
  rw [hlow'.1, hlow'.2, hup'.1, hup'.2]
  by_cases heven : m % 2 = 0 <;> simp [heven]

/-- What is found lies in the interval. -/
theorem holds_of_nearest? {i : Interval} {tie : Tie} {n : Nat} (h : i.nearest? tie = some n) :
    i.holds n = true := by
  unfold nearest? at h
  rcases hbelow : i.holds (i.value / i.denominator) with - | -
  · rcases habove : i.holds (i.value / i.denominator + 1) with - | -
    · simp only [hbelow, habove] at h
      cases h
    · simp only [hbelow, habove] at h
      exact Option.some.inj h ▸ habove
  · rcases habove : i.holds (i.value / i.denominator + 1) with - | -
    · simp only [hbelow, habove] at h
      exact Option.some.inj h ▸ hbelow
    · simp only [hbelow, habove] at h
      split at h
      · exact Option.some.inj h ▸ hbelow
      · split at h
        · exact Option.some.inj h ▸ habove
        · split at h
          · exact Option.some.inj h ▸ hbelow
          · exact Option.some.inj h ▸ habove

/-- If the number above the value lies in the interval, one is found. -/
theorem nearest?_isSome {i : Interval} (tie : Tie)
    (h : i.holds (i.value / i.denominator + 1) = true) : (i.nearest? tie).isSome = true := by
  unfold nearest?
  simp only [h]
  rcases i.holds (i.value / i.denominator) with - | -
  · rfl
  · dsimp only
    split
    · rfl
    · split
      · rfl
      · rfl

/-! ### How far the search goes -/

/-- The power of ten that the value reaches. -/
theorem pow_magnitude_le {m : Nat} {q : Int} (hm : 0 < m) :
    (10 : ℚ) ^ (ofParts m q).magnitude ≤ m * 2 ^ q := by
  have hvalue := (ofParts_eq m q).2.1
  have hpos : (0 : ℚ) < m * 2 ^ q := mul_pos (by exact_mod_cast hm) (two_zpow_pos q)
  rw [← hvalue] at hpos ⊢
  unfold magnitude
  generalize (ofParts m q).value = num at *
  generalize (ofParts m q).denominator = den at *
  have hden : 0 < den := by
    apply Nat.pos_of_ne_zero
    rintro rfl
    rw [Nat.cast_zero, div_zero] at hpos
    exact lt_irrefl _ hpos
  have hnum : 0 < num := by
    apply Nat.pos_of_ne_zero
    rintro rfl
    rw [Nat.cast_zero, zero_div] at hpos
    exact lt_irrefl _ hpos
  split
  · -- not below one
    rename_i hle
    exact (Double.digits_bounds (Nat.div_pos hle hden)).1.trans Nat.cast_div_le
  · rename_i hlt
    have hup := (Double.digits_bounds (Nat.div_pos (not_le.1 hlt).le hnum)).2
    generalize (Nat.toDigits 10 (den / num)).length = k at *
    rw [zpow_natCast] at hup
    have hup' : den / num < 10 ^ k := by exact_mod_cast hup
    have hmul : (den : ℚ) < 10 ^ k * num := by
      exact_mod_cast (Nat.div_lt_iff_lt_mul hnum).1 hup'
    have hden' : (0 : ℚ) < den := by exact_mod_cast hden
    rw [zpow_neg, zpow_natCast, le_div_iff₀ hden', inv_mul_le_iff₀ (by positivity)]
    exact hmul.le

/-- A grid that is finer than the value by seventeen digits has its next
point in the interval. -/
theorem holds_above {m : Nat} {q k : Int} (h : Parts m q)
    (hk : (10 : ℚ) ^ (k + 17) ≤ m * 2 ^ q) :
    ((ofParts m q).inUnits k).holds
      (((ofParts m q).inUnits k).value / ((ofParts m q).inUnits k).denominator + 1) = true := by
  have hvalue := (inUnits_eq (ofParts m q) k).2.1
  rw [(ofParts_eq m q).2.1] at hvalue
  have hden := denominator_pos m q k
  have hden' : (0 : ℚ) < ((ofParts m q).inUnits k).denominator := by exact_mod_cast hden
  rw [holds_inUnits_iff]
  generalize ((ofParts m q).inUnits k).value = num at *
  generalize ((ofParts m q).inUnits k).denominator = den at *
  have hbelow : ((num / den : Nat) : ℚ) ≤ num / den := Nat.cast_div_le
  have habove : (num : ℚ) / den < (num / den : Nat) + 1 := by
    rw [div_lt_iff₀ hden', mul_comm]
    exact_mod_cast Nat.lt_mul_div_succ num hden
  have h2 := two_zpow_pos q
  have h10 : (0 : ℚ) < 10 ^ k := zpow_pos (by norm_num) k
  -- a step of the grid is shorter than half a unit of the double
  have hunit : (10 : ℚ) ^ k / 2 ^ q < 1 / 2 := by
    have hm : (m : ℚ) < 2 ^ 53 := by exact_mod_cast h.lt
    have hlt : (10 : ℚ) ^ k * 10 ^ 17 < 2 ^ 53 * 2 ^ q := by
      calc (10 : ℚ) ^ k * 10 ^ 17 = 10 ^ (k + 17) := by
            rw [zpow_add₀ (by norm_num)]; norm_num
        _ ≤ m * 2 ^ q := hk
        _ < 2 ^ 53 * 2 ^ q := mul_lt_mul_of_pos_right hm h2
    rw [div_lt_iff₀ h2]
    linarith
  have hstep : ∀ x : ℚ, (x + 1) * 10 ^ k / 2 ^ q = x * (10 ^ k / 2 ^ q) + 10 ^ k / 2 ^ q := by
    intro x
    ring
  have hvalue' : (num : ℚ) / den * (10 ^ k / 2 ^ q) = m := by
    rw [hvalue]
    field_simp
  have hfactor : (0 : ℚ) < 10 ^ k / 2 ^ q := by positivity
  have hbelow' := mul_le_mul_of_nonneg_right hbelow hfactor.le
  have habove' := mul_lt_mul_of_pos_right habove hfactor
  rw [hvalue'] at hbelow' habove'
  have hlow := (Double.lowerEnd_bounds h.pos q).2
  push_cast
  apply Rounds.of_lt
  · rw [hstep]; linarith
  · rw [hstep]; linarith

end Interval

/-- **The shortest decimal of a double rounds to it.** -/
theorem shortest_rounds (tie : Tie) {m : Nat} {q : Int} (h : Parts m q) :
    Rounds m q ((shortest tie m q).1 * 10 ^ (shortest tie m q).2) := by
  let i := Interval.ofParts m q
  let search (n : Nat) : Option (Nat × Int) :=
    ((i.inUnits (i.magnitude + 1 - n)).nearest? tie).map fun d => (d, i.magnitude + 1 - n)
  -- the finest grid has a hit, so the search has one
  have hlast : (search 18).isSome = true := by
    have hgrid : (10 : ℚ) ^ (i.magnitude + 1 - (18 : Nat) + 17) ≤ m * 2 ^ q := by
      rw [show i.magnitude + 1 - (18 : Nat) + 17 = i.magnitude by omega]
      exact Interval.pow_magnitude_le h.pos
    rw [Option.isSome_map]
    exact Interval.nearest?_isSome tie (Interval.holds_above h hgrid)
  have hhit : ((List.range 19).findSome? search).isSome = true :=
    List.findSome?_isSome_iff.2 ⟨18, by decide, hlast⟩
  obtain ⟨⟨d, k⟩, hdk⟩ := Option.isSome_iff_exists.1 hhit
  have hshortest : shortest tie m q = (d, k) := by
    show ((List.range 19).findSome? search).getD (0, 0) = _
    rw [hdk]
    rfl
  obtain ⟨n, -, hn⟩ := List.exists_of_findSome?_eq_some hdk
  obtain ⟨d', hd', heq⟩ := Option.map_eq_some_iff.1 hn
  rw [hshortest]
  cases heq
  exact (Interval.holds_inUnits_iff m q _ _).1 (Interval.holds_of_nearest? hd')

end PageWalk.Decimal
