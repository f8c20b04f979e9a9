/-
PageWalk/Proofs/Config/Period.lean

Which numbers of seconds are periods, and how many nanoseconds those have.

A number of seconds is a quotient of whole numbers (`Seconds`).  Rounding
takes the whole number nearest to a quotient, of two the even one, and there
is one such number only (`nearest_iff`), so the period of a number of seconds
is determined by its value (`ofSeconds?_eq_some_iff`).
-/
import PageWalk.Config.Period
import PageWalk.Proofs.Decimal.Shortest

namespace PageWalk

namespace Decimal

/-! ### Rounding to a whole number -/

/-- The whole number `n` is nearest to `v`, and even if another is as near. -/
structure Nearest (v : ℚ) (n : Nat) : Prop where
  near : |v - n| ≤ 1 / 2
  tie : |v - n| = 1 / 2 → n % 2 = 0

theorem nearest_roundHalfEven (num : Nat) {den : Nat} (h : 0 < den) :
    Nearest (num / den) (roundHalfEven num den) := by
  have hden : (0 : ℚ) < den := by exact_mod_cast h
  have hlt : num % den < den := Nat.mod_lt num h
  have hsum : (num : ℚ) / den = (num / den : Nat) + (num % den : Nat) / den := by
    rw [div_eq_iff hden.ne', add_mul, div_mul_cancel₀ _ hden.ne']
    exact_mod_cast (Nat.div_add_mod' num den).symm
  unfold roundHalfEven
  rw [hsum]
  generalize num / den = whole at *
  generalize num % den = rest at *
  have hrest : (0 : ℚ) ≤ rest / den := div_nonneg rest.cast_nonneg hden.le
  simp only [Bool.or_eq_true, Bool.and_eq_true, decide_eq_true_eq, beq_iff_eq]
  split
  · rename_i hdown
    have habs : |(whole + rest / den : ℚ) - whole| = rest / den := by
      rw [add_sub_cancel_left, abs_of_nonneg hrest]
    constructor
    · rw [habs, div_le_div_iff₀ hden two_pos]
      exact_mod_cast (by omega : rest * 2 ≤ 1 * den)
    · rw [habs, div_eq_div_iff hden.ne' two_ne_zero]
      intro htie
      have : rest * 2 = 1 * den := by exact_mod_cast htie
      omega
  · rename_i hup
    have habs : |(whole + rest / den : ℚ) - (whole + 1 : Nat)| = (den - rest) / den := by
      have hneg : (whole + rest / den : ℚ) - (whole + 1 : Nat) = -((den - rest) / den) := by
        push_cast
        field_simp
        ring
      rw [hneg, abs_neg, abs_of_nonneg]
      exact div_nonneg (sub_nonneg.2 (by exact_mod_cast hlt.le)) hden.le
    constructor
    · rw [habs, div_le_div_iff₀ hden two_pos, sub_mul, sub_le_iff_le_add]
      exact_mod_cast (by omega : den * 2 ≤ 1 * den + rest * 2)
    · rw [habs, div_eq_div_iff hden.ne' two_ne_zero, sub_mul, sub_eq_iff_eq_add]
      intro htie
      have : den * 2 = 1 * den + rest * 2 := by exact_mod_cast htie
      omega

/-- Of two whole numbers that are nearest, both would be even. -/
theorem Nearest.unique {v : ℚ} {n n' : Nat} (h : Nearest v n) (h' : Nearest v n') : n = n' := by
  wlog hlt : n < n' generalizing n n'
  · rcases (not_lt.1 hlt).eq_or_lt with heq | hgt
    · exact heq.symm
    · exact (this h' h hgt).symm
  have hle : (n : ℚ) + 1 ≤ n' := by exact_mod_cast hlt
  have hup := (abs_le.1 h.near).2
  have hlow := (abs_le.1 h'.near).1
  -- `v` is halfway between them, and they are neighbours
  have hv : v - n = 1 / 2 := by linarith
  have hv' : v - n' = -(1 / 2) := by linarith
  have hnext : (n' : ℚ) = n + 1 := by linarith
  have heven := h.tie (by rw [hv, abs_of_pos one_half_pos])
  have heven' := h'.tie (by rw [hv', abs_neg, abs_of_pos one_half_pos])
  have : n' = n + 1 := by exact_mod_cast hnext
  omega

theorem exists_nearest {v : ℚ} (h : 0 ≤ v) : ∃ n, Nearest v n := by
  have hv : (v.num.toNat : ℚ) / v.den = v := by
    rw [← Int.cast_natCast, Int.toNat_of_nonneg (Rat.num_nonneg.2 h), Rat.num_div_den]
  exact ⟨_, hv ▸ nearest_roundHalfEven v.num.toNat v.den_pos⟩

theorem nearest_iff {num den n : Nat} (h : 0 < den) :
    Nearest (num / den) n ↔ roundHalfEven num den = n :=
  ⟨(nearest_roundHalfEven num h).unique, fun heq => heq ▸ nearest_roundHalfEven num h⟩

end Decimal

namespace Period

/-! ### Seconds -/

/-- The double `x` stands for `v` seconds: it is finite, and not below zero. -/
def Seconds (x : Float) (v : ℚ) : Prop :=
  ∃ negative m q, Double.ofFloat x = .finite negative m q ∧ (negative = true → m = 0) ∧
    v = m * 2 ^ q

/-- The double `x` is a period, in seconds. -/
def IsPeriod (x : Float) : Prop := ∃ v, Seconds x v ∧ v < 2 ^ 64

/-- The period of the seconds `x`, to the nearest nanosecond. -/
def Rounded (x : Float) (p : Period) : Prop :=
  ∃ v, Seconds x v ∧ Decimal.Nearest (v * 10 ^ 9) p.nanoseconds

theorem seconds_iff {x : Float} {negative : Bool} {m : Nat} {q : Int} {v : ℚ}
    (h : Double.ofFloat x = .finite negative m q) :
    Seconds x v ↔ (negative = true → m = 0) ∧ v = m * 2 ^ q := by
  unfold Seconds
  rw [h]
  constructor
  · rintro ⟨_, _, _, ⟨⟩, hv⟩
    exact hv
  · intro hv
    exact ⟨negative, m, q, rfl, hv⟩

/-- The parts of a double that is refused. -/
theorem outOfRange_iff (negative : Bool) (m : Nat) (q : Int) :
    (negative && m != 0 || decide (Nat.pow 2 64 * (Double.ratio m q).2 ≤ (Double.ratio m q).1)) = true
      ↔ ¬ ((negative = true → m = 0) ∧ (m * 2 ^ q : ℚ) < 2 ^ 64) := by
  have hden : (0 : ℚ) < (Double.ratio m q).2 := by
    exact_mod_cast Decimal.Interval.ratio_snd_pos m q
  have hsign : (negative && m != 0) = true ↔ ¬ (negative = true → m = 0) := by
    cases negative <;> simp
  have hlarge : Nat.pow 2 64 * (Double.ratio m q).2 ≤ (Double.ratio m q).1 ↔
      ¬ (m * 2 ^ q : ℚ) < 2 ^ 64 := by
    rw [not_lt, ← Decimal.Interval.ratio_eq, le_div_iff₀ hden]
    exact_mod_cast Iff.rfl
  rw [Bool.or_eq_true, hsign, decide_eq_true_iff, hlarge, not_and_or]

theorem nearest_nanoseconds_iff (m : Nat) (q : Int) (n : Nat) :
    Decimal.Nearest (m * 2 ^ q * 10 ^ 9) n ↔
      Decimal.roundHalfEven ((Double.ratio m q).1 * perSecond) (Double.ratio m q).2 = n := by
  have hscaled : (m * 2 ^ q * 10 ^ 9 : ℚ)
      = ((Double.ratio m q).1 * perSecond : Nat) / (Double.ratio m q).2 := by
    rw [← Decimal.Interval.ratio_eq, Nat.cast_mul, div_mul_eq_mul_div]
    norm_num [perSecond]
  rw [hscaled, Decimal.nearest_iff (Decimal.Interval.ratio_snd_pos m q)]

/-- **The period of a number of seconds.** -/
theorem ofSeconds?_eq_some_iff {x : Float} {p : Period} :
    ofSeconds? x = some p ↔ IsPeriod x ∧ Rounded x p := by
  obtain ⟨nanoseconds⟩ := p
  unfold ofSeconds?
  split
  · rename_i negative m q hx
    simp only [IsPeriod, Rounded, seconds_iff hx, and_assoc, exists_and_left, exists_eq_left,
      outOfRange_iff, nearest_nanoseconds_iff]
    split
    · rename_i h
      exact iff_of_false nofun fun hp => h ⟨hp.1, hp.2.1⟩
    · rename_i h
      obtain ⟨hsign, hlt⟩ := not_not.1 h
      rw [Option.some_inj, Period.mk.injEq]
      exact ⟨fun hp => ⟨hsign, hlt, hsign, hp⟩, fun hp => hp.2.2.2⟩
  · rename_i hx
    refine iff_of_false nofun ?_
    rintro ⟨⟨v, ⟨negative, m, q, h, -⟩, -⟩, -⟩
    exact hx negative m q h

theorem Rounded.unique {x : Float} {p p' : Period} (h : Rounded x p) (h' : Rounded x p') :
    p = p' := by
  obtain ⟨v, ⟨negative, m, q, hx, -, hv⟩, hnear⟩ := h
  obtain ⟨v', hv', hnear'⟩ := h'
  have heq : v = v' := hv.trans ((seconds_iff hx).1 hv').2.symm
  exact congrArg Period.mk (hnear.unique (heq ▸ hnear'))

theorem ofSeconds?_eq_none_iff {x : Float} : ofSeconds? x = none ↔ ¬ IsPeriod x := by
  constructor
  · rintro hnone ⟨v, ⟨negative, m, q, hx, hsign, rfl⟩, hlt⟩
    obtain ⟨n, hn⟩ := Decimal.exists_nearest (v := m * 2 ^ q * 10 ^ 9) (by positivity)
    have hsome : ofSeconds? x = some ⟨n⟩ := ofSeconds?_eq_some_iff.2
      ⟨⟨_, (seconds_iff hx).2 ⟨hsign, rfl⟩, hlt⟩, _, (seconds_iff hx).2 ⟨hsign, rfl⟩, hn⟩
    rw [hnone] at hsome
    cases hsome
  · intro h
    rw [Option.eq_none_iff_forall_ne_some]
    exact fun p hp => h (ofSeconds?_eq_some_iff.1 hp).1

end Period

end PageWalk
