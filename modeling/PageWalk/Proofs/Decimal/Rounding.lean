/-
PageWalk/Proofs/Decimal/Rounding.lean

Which numbers a double is the rounding of, and that arithmetic on doubles
rounds to it.

`Rounds m q v` says of a rational `v` that `m * 2 ^ q` is the double
nearest to it, of two the even one.  Arithmetic shifts a mantissa to the
right and keeps two bits of what falls off; `Stands` says what the three
together stand for, so one shift halves it (`Stands.shiftRightOne`) and
rounding is a matter of a half (`Stands.roundedMantissa_eq`).  From these
`roundWithAccuracy_eq` follows, and from that what products and quotients
of doubles are.
-/
import PageWalk.Proofs.Decimal.Double
import Mathlib.Algebra.Order.Field.Power
import Mathlib.Data.Rat.Cast.Order
import Mathlib.Tactic.FieldSimp
import Mathlib.Tactic.Linarith
import Mathlib.Tactic.Positivity
import Mathlib.Tactic.Ring

open Float.Model (Format UnpackedFloat totalExponent)
open Float.Model.UnpackedFloat (Sign Accuracy ExtendedMantissa)

namespace PageWalk.Double

/-! ### The interval of a double -/

/-- Four times the lower end of the interval around `m`, in units of
`2 ^ q`.  Below a power of two doubles are twice as dense. -/
def lowerEnd (m : Nat) (q : Int) : Nat :=
  if m = 2 ^ 52 ∧ q > -1074 then 4 * m - 1 else 4 * m - 2

/-- The double `m * 2 ^ q` is the nearest to `v`; the ends of its interval
belong to it if its mantissa is even. -/
def Rounds (m : Nat) (q : Int) (v : ℚ) : Prop :=
  if m % 2 = 0 then lowerEnd m q ≤ 4 * (v / 2 ^ q) ∧ 4 * (v / 2 ^ q) ≤ 4 * m + 2
  else lowerEnd m q < 4 * (v / 2 ^ q) ∧ 4 * (v / 2 ^ q) < 4 * m + 2

theorem two_zpow_pos (q : Int) : (0 : ℚ) < 2 ^ q := zpow_pos (by norm_num) q

theorem lowerEnd_bounds {m : Nat} (hm : 0 < m) (q : Int) :
    4 * (m : ℚ) - 2 ≤ lowerEnd m q ∧ (lowerEnd m q : ℚ) ≤ 4 * m - 1 := by
  unfold lowerEnd
  split
  · rw [Nat.cast_sub (by omega)]
    push_cast
    constructor <;> linarith
  · rw [Nat.cast_sub (by omega)]
    push_cast
    constructor <;> linarith

/-- The interval reaches half a unit to both sides at most. -/
theorem Rounds.bounds {m : Nat} {q : Int} {v : ℚ} (hm : 0 < m) (h : Rounds m q v) :
    (m : ℚ) - 1 / 2 ≤ v / 2 ^ q ∧ v / 2 ^ q ≤ m + 1 / 2 ∧
      (m % 2 = 1 → (m : ℚ) - 1 / 2 < v / 2 ^ q ∧ v / 2 ^ q < m + 1 / 2) := by
  have hlow := (lowerEnd_bounds hm q).1
  unfold Rounds at h
  split at h
  · refine ⟨by linarith, by linarith, fun hodd => by omega⟩
  · exact ⟨by linarith, by linarith, fun _ => ⟨by linarith, by linarith⟩⟩

/-- What lies half a unit away at most is in the interval, if it is not
below the narrow side of a power of two. -/
theorem Rounds.of_near {m : Nat} {q : Int} {v : ℚ} (hm : 0 < m)
    (hlow : (m : ℚ) - 1 / 2 ≤ v / 2 ^ q) (hup : v / 2 ^ q ≤ m + 1 / 2)
    (hodd : m % 2 = 1 → (m : ℚ) - 1 / 2 < v / 2 ^ q ∧ v / 2 ^ q < m + 1 / 2)
    (hnarrow : m = 2 ^ 52 → -1074 < q → (m : ℚ) - 1 / 4 ≤ v / 2 ^ q) : Rounds m q v := by
  have hcast : ((4 * m - 2 : Nat) : ℚ) = 4 * m - 2 := by
    rw [Nat.cast_sub (by omega)]
    push_cast
    rfl
  unfold Rounds lowerEnd
  split
  · refine ⟨?_, by linarith⟩
    split
    · rename_i hpower
      have h := hnarrow hpower.1 hpower.2
      rw [Nat.cast_sub (by omega)]
      push_cast
      linarith
    · rw [hcast]; linarith
  · -- an odd mantissa is no power of two
    rename_i hne
    obtain ⟨h1, h2⟩ := hodd (by omega)
    refine ⟨?_, by linarith⟩
    rw [if_neg fun hpower => hne (by rw [hpower.1]; norm_num), hcast]
    linarith

/-- What is above the middle to the next double below, and below the middle
to the next above, rounds to the double between them. -/
theorem Rounds.of_lt {m : Nat} {q : Int} {v : ℚ} (hlow : lowerEnd m q < 4 * (v / 2 ^ q))
    (hup : 4 * (v / 2 ^ q) < 4 * m + 2) : Rounds m q v := by
  unfold Rounds
  split
  · exact ⟨hlow.le, hup.le⟩
  · exact ⟨hlow, hup⟩

/-- A double is the rounding of itself. -/
theorem Rounds.self {m : Nat} (hm : 0 < m) (q : Int) : Rounds m q (m * 2 ^ q) := by
  have hq := (two_zpow_pos q).ne'
  have hlow := (lowerEnd_bounds hm q).2
  apply Rounds.of_lt
  · rw [mul_div_cancel_right₀ _ hq]; linarith
  · rw [mul_div_cancel_right₀ _ hq]; linarith

theorem Rounds.pos {m : Nat} {q : Int} {v : ℚ} (hm : 0 < m) (h : Rounds m q v) : 0 < v := by
  have hm' : (1 : ℚ) ≤ m := by exact_mod_cast hm
  have hdiv : 0 < v / 2 ^ q := by linarith [(h.bounds hm).1]
  have hq := two_zpow_pos q
  calc (0 : ℚ) < v / 2 ^ q * 2 ^ q := by positivity
    _ = v := div_mul_cancel₀ v hq.ne'

/-! ### Mantissas with two residual bits -/

/-- The rational that a mantissa stands for with its residual bits: the
first counts a half, and the second tells whether there is anything
below. -/
def Stands (em : ExtendedMantissa) (x : ℚ) : Prop :=
  ∃ r : ℚ, 0 ≤ r ∧ r < 1 / 2 ∧ (em.stickyBit = true ↔ r ≠ 0) ∧
    x = em.mantissa + (if em.roundBit then 1 / 2 else 0) + r

namespace Stands

variable {em : ExtendedMantissa} {x : ℚ}

theorem exact (m : Nat) : Stands (.ofMantissaAndAccuracy m .exact) m :=
  ⟨0, le_rfl, by norm_num, by simp [ExtendedMantissa.ofMantissaAndAccuracy],
    by simp [ExtendedMantissa.ofMantissaAndAccuracy]⟩

/-- A quotient stands for itself, with what its remainder says of the rest. -/
theorem quotient (n : Nat) {d : Nat} (hd : 0 < d) :
    Stands (.ofMantissaAndAccuracy (n / d)
      (UnpackedFloat.accuracyOfFraction (n % d) d)) ((n : ℚ) / d) := by
  have hd' : (0 : ℚ) < d := by exact_mod_cast hd
  have hlt : ((n % d : Nat) : ℚ) < d := by exact_mod_cast Nat.mod_lt n hd
  have hn : (n : ℚ) / d = (n / d : Nat) + ((n % d : Nat) : ℚ) / d := by
    have hsplit : (n : ℚ) = d * (n / d : Nat) + (n % d : Nat) := by
      exact_mod_cast (Nat.div_add_mod n d).symm
    rw [hsplit]
    field_simp
  unfold UnpackedFloat.accuracyOfFraction
  generalize n % d = k at *
  split
  · -- nothing remains
    rename_i hzero
    subst hzero
    refine ⟨0, le_rfl, by norm_num, by simp [ExtendedMantissa.ofMantissaAndAccuracy], ?_⟩
    simpa [ExtendedMantissa.ofMantissaAndAccuracy] using hn
  · rename_i hk
    have hk' : (0 : ℚ) < k := by exact_mod_cast Nat.pos_of_ne_zero hk
    rcases hcmp : compare (2 * k) d with _ | _ | _
    · -- less than a half
      have hlow : 2 * (k : ℚ) < d := by exact_mod_cast Nat.compare_eq_lt.1 hcmp
      refine ⟨k / d, by positivity, ?_, ?_, ?_⟩
      · rw [div_lt_div_iff₀ hd' two_pos]; linarith
      · exact iff_of_true rfl (by positivity)
      · simpa [ExtendedMantissa.ofMantissaAndAccuracy] using hn
    · -- a half
      have heq : 2 * (k : ℚ) = d := by exact_mod_cast Nat.compare_eq_eq.1 hcmp
      refine ⟨0, le_rfl, by norm_num, iff_of_false Bool.false_ne_true (by simp), ?_⟩
      rw [hn, ← heq]
      simp [ExtendedMantissa.ofMantissaAndAccuracy]
      field_simp
    · -- more
      have hup : (d : ℚ) < 2 * k := by exact_mod_cast Nat.compare_eq_gt.1 hcmp
      have hhalf : (1 : ℚ) / 2 < k / d := by rw [div_lt_div_iff₀ two_pos hd']; linarith
      have hone : (k : ℚ) / d < 1 := by rw [div_lt_one hd']; exact hlt
      refine ⟨k / d - 1 / 2, by linarith, by linarith, ?_, ?_⟩
      · exact iff_of_true rfl (by linarith)
      · rw [hn]
        simp [ExtendedMantissa.ofMantissaAndAccuracy]

theorem bounds (h : Stands em x) : (em.mantissa : ℚ) ≤ x ∧ x < em.mantissa + 1 := by
  obtain ⟨r, hr, hr', -, rfl⟩ := h
  split <;> constructor <;> linarith

/-- A shift halves. -/
theorem shiftRightOne (h : Stands em x) : Stands em.shiftRightOne (x / 2) := by
  obtain ⟨r, hr, hr', hsticky, rfl⟩ := h
  have hm : (em.mantissa : ℚ) = 2 * (em.mantissa / 2 : Nat) + (em.mantissa % 2 : Nat) := by
    exact_mod_cast (Nat.div_add_mod em.mantissa 2).symm
  -- the round bit joins the rest, and the last bit of the mantissa takes its place
  refine ⟨(if em.roundBit then 1 / 4 else 0) + r / 2, ?_, ?_, ?_, ?_⟩
  · split <;> linarith
  · split <;> linarith
  · show (em.roundBit || em.stickyBit) = true ↔ _
    rw [Bool.or_eq_true, hsticky]
    cases em.roundBit
    · simp
    · simp only [true_or, if_true, true_iff]
      linarith
  · show _ = ((em.mantissa / 2 : Nat) : ℚ) + (if (em.mantissa % 2 != 0) then 1 / 2 else 0) + _
    rw [hm]
    rcases Nat.mod_two_eq_zero_or_one em.mantissa with h0 | h1
    · rw [h0]; split <;> simp <;> ring
    · rw [h1]; split <;> simp <;> ring

theorem shiftRight (h : Stands em x) (n : Nat) : Stands (em >>> n) (x / 2 ^ n) := by
  induction n with
  | zero => rw [pow_zero, div_one]; exact h
  | succ n ih =>
    rw [pow_succ, ← div_div]
    exact ih.shiftRightOne

/-- Rounding gives the whole number that is a half away at most, of two the
even one. -/
theorem roundedMantissa_eq (h : Stands em x) {m : Nat} (hlow : (m : ℚ) - 1 / 2 ≤ x)
    (hup : x ≤ m + 1 / 2) (hodd : m % 2 = 1 → (m : ℚ) - 1 / 2 < x ∧ x < m + 1 / 2) :
    em.roundedMantissa = m := by
  obtain ⟨r, hr, hr', hsticky, rfl⟩ := h
  obtain ⟨n, roundBit, stickyBit⟩ := em
  cases roundBit <;> cases stickyBit <;> simp at hsticky hlow hup hodd
  · -- nothing below the mantissa
    subst hsticky
    have h1 : (m : ℚ) < n + 1 := by linarith
    have h2 : (n : ℚ) < m + 1 := by linarith
    norm_cast at h1 h2
    show n = m
    omega
  · -- less than a half
    have h1 : (m : ℚ) < n + 1 := by linarith
    have h2 : (n : ℚ) < m + 1 := by linarith
    norm_cast at h1 h2
    show n = m
    omega
  · -- a half
    subst hsticky
    have h1 : (m : ℚ) ≤ n + 1 := by linarith
    have h2 : (n : ℚ) ≤ m := by linarith
    norm_cast at h1 h2
    show n + n % 2 = m
    rcases Nat.mod_two_eq_zero_or_one m with heven | hone
    · omega
    · obtain ⟨h3, h4⟩ := hodd hone
      have h5 : (m : ℚ) < n + 1 := by linarith
      have h6 : (n : ℚ) < m := by linarith
      norm_cast at h5 h6
      omega
  · -- more
    have hpos : 0 < r := lt_of_le_of_ne hr (Ne.symm hsticky)
    have h1 : (m : ℚ) < n + 2 := by linarith
    have h2 : (n : ℚ) < m := by linarith
    norm_cast at h1 h2
    show n + 1 = m
    omega

end Stands

/-! ### Rounding to the exponent of a double -/

section Rounding

variable {s : Sign} {m : Nat} {e : Int} {acc : Accuracy} {v : ℚ}

/-- The exponent to which a mantissa with an exponent is shifted. -/
def target (m : Nat) (e : Int) : Int := max (m.log2 + e - 52) (-1074)

theorem targetExponent_eq (m : Nat) (e : Int) :
    Format.binary64.targetExponent (totalExponent m e) = target m e := by
  show max ((m.log2 : Int) + 1 + e - (53 : Nat)) (3 - 2 ^ 10 - (53 : Nat)) = _
  unfold target
  congr 1
  omega

theorem shiftToTargetExponent_eq (m : Nat) (e : Int) (acc : Accuracy) :
    UnpackedFloat.shiftToTargetExponent .binary64 m e acc
      = (ExtendedMantissa.ofMantissaAndAccuracy m acc >>> (target m e - e).toNat,
        e + (target m e - e).toNat) := by
  rw [← targetExponent_eq]
  rfl

theorem lt_two_pow_log2 (m : Nat) : (m : ℚ) + 1 ≤ 2 ^ (m.log2 + 1) := by
  exact_mod_cast Nat.lt_log2_self (n := m)

theorem div_two_zpow (v : ℚ) {a b : Int} {n : Nat} (h : b = a + n) :
    v / 2 ^ b = v / 2 ^ a / 2 ^ n := by
  rw [h, zpow_add₀ two_ne_zero, zpow_natCast, div_div]

/-- The first shift, to the exponent of the result.  The mantissa gets 53
bits, unless the exponent is the least there is. -/
theorem exists_shifted (hv : Stands (.ofMantissaAndAccuracy m acc) (v / 2 ^ e))
    (he : e ≤ target m e) :
    ∃ em, UnpackedFloat.shiftToTargetExponent .binary64 m e acc = (em, target m e) ∧
      Stands em (v / 2 ^ target m e) ∧ v / 2 ^ target m e < 2 ^ 53 ∧
      (target m e = -1074 ∨ 2 ^ 52 ≤ v / 2 ^ target m e) := by
  obtain ⟨n, hn⟩ := Int.eq_ofNat_of_zero_le (Int.sub_nonneg.2 he)
  have hdiv : v / 2 ^ target m e = v / 2 ^ e / 2 ^ n := div_two_zpow v (by omega)
  have hmantissa : (ExtendedMantissa.ofMantissaAndAccuracy m acc).mantissa = m := by
    unfold ExtendedMantissa.ofMantissaAndAccuracy
    split <;> rfl
  obtain ⟨hlow, hup⟩ := hv.bounds
  rw [hmantissa] at hlow hup
  refine ⟨ExtendedMantissa.ofMantissaAndAccuracy m acc >>> n, ?_, ?_, ?_, ?_⟩
  · rw [shiftToTargetExponent_eq, hn]
    show (_, e + (n : Int)) = (_, target m e)
    rw [show e + (n : Int) = target m e by omega]
    rfl
  · rw [hdiv]
    exact hv.shiftRight n
  · have hlog : m.log2 + 1 ≤ 53 + n := by unfold target at hn; omega
    rw [hdiv, div_lt_iff₀ (by positivity), ← pow_add]
    calc v / 2 ^ e < m + 1 := hup
      _ ≤ 2 ^ (m.log2 + 1) := lt_two_pow_log2 m
      _ ≤ 2 ^ (53 + n) := pow_le_pow_right₀ (by norm_num) hlog
  · by_cases hleast : target m e = -1074
    · exact Or.inl hleast
    · right
      have hlog : m.log2 = 52 + n := by unfold target at hn hleast; omega
      have hm : m ≠ 0 := by
        rintro rfl
        rw [Nat.log2_zero] at hlog
        omega
      rw [hdiv, le_div_iff₀ (by positivity), ← pow_add, ← hlog]
      calc (2 : ℚ) ^ m.log2 ≤ m := by exact_mod_cast Nat.log2_self_le hm
        _ ≤ v / 2 ^ e := hlow

/-- The second shift, after rounding: it does nothing, unless rounding led
to the next power of two. -/
theorem shifted_again (hm : m < 2 ^ 53) (he : -1074 ≤ e) :
    UnpackedFloat.shiftToTargetExponent .binary64 m e .exact
      = (.ofMantissaAndAccuracy m .exact, e) := by
  have hlog : m.log2 ≤ 52 := by
    rcases Nat.eq_zero_or_pos m with rfl | hpos
    · decide
    · have := (Nat.log2_lt hpos.ne').2 hm
      omega
  have htarget : (target m e - e).toNat = 0 := by unfold target; omega
  rw [shiftToTargetExponent_eq, htarget]
  show (_, e + 0) = (_, e)
  rw [add_zero]
  rfl

theorem shifted_again_carry (he : -1074 ≤ e) :
    UnpackedFloat.shiftToTargetExponent .binary64 (2 ^ 53) e .exact
      = (.ofMantissaAndAccuracy (2 ^ 52) .exact, e + 1) := by
  have htarget : (target (2 ^ 53) e - e).toNat = 1 := by
    unfold target
    rw [Nat.log2_two_pow]
    omega
  rw [shiftToTargetExponent_eq, htarget]
  rfl

/-- What rounding gives, by the rounded mantissa of the first shift. -/
theorem roundWithAccuracy_of_lt {em : ExtendedMantissa} {t : Int}
    (hem : UnpackedFloat.shiftToTargetExponent .binary64 m e acc = (em, t)) (ht : -1074 ≤ t)
    (hpos : 0 < em.roundedMantissa) (hlt : em.roundedMantissa < 2 ^ 53) :
    UnpackedFloat.roundWithAccuracy .binary64 s m e acc = .finite s em.roundedMantissa t hpos := by
  unfold UnpackedFloat.roundWithAccuracy
  simp only [hem, shifted_again hlt ht]
  exact dif_neg hpos.ne'

theorem roundWithAccuracy_of_carry {em : ExtendedMantissa} {t : Int}
    (hem : UnpackedFloat.shiftToTargetExponent .binary64 m e acc = (em, t)) (ht : -1074 ≤ t)
    (hcarry : em.roundedMantissa = 2 ^ 53) :
    UnpackedFloat.roundWithAccuracy .binary64 s m e acc
      = .finite s (2 ^ 52) (t + 1) (Nat.two_pow_pos 52) := by
  unfold UnpackedFloat.roundWithAccuracy
  simp only [hem, hcarry, shifted_again_carry ht]
  rfl

/-- **Rounding finds the nearest double.**  What a mantissa with its
accuracy stands for is rounded to the double in whose interval it lies. -/
theorem roundWithAccuracy_eq (hv : Stands (.ofMantissaAndAccuracy m acc) (v / 2 ^ e))
    (he : e ≤ target m e) {M : Nat} {Q : Int} (hparts : Parts M Q) (hrounds : Rounds M Q v) :
    UnpackedFloat.roundWithAccuracy .binary64 s m e acc = .finite s M Q hparts.pos := by
  obtain ⟨em, hem, hstands, hlt, hnormal⟩ := exists_shifted hv he
  obtain ⟨hlow, hup, hodd⟩ := hrounds.bounds hparts.pos
  have hleast : -1074 ≤ target m e := le_max_right ..
  have hM : (M : ℚ) + 1 ≤ 2 ^ 53 := by exact_mod_cast hparts.lt
  generalize target m e = t at *
  rcases lt_trichotomy t Q with hlt' | rfl | hgt
  · -- rounding leads to the next power of two
    obtain ⟨n, hn⟩ := Int.eq_ofNat_of_zero_le (Int.sub_nonneg.2 hlt'.le)
    have hdiv : v / 2 ^ Q = v / 2 ^ t / 2 ^ n := div_two_zpow v (by omega)
    have hM' : (2 : ℚ) ^ 52 ≤ M := by
      exact_mod_cast hparts.full.resolve_right (by omega)
    have hn1 : n = 1 := by
      by_contra hne
      have hpow : (2 : ℚ) ^ 2 ≤ 2 ^ n := pow_le_pow_right₀ (by norm_num) (by omega)
      have hquot : v / 2 ^ Q ≤ 2 ^ 53 / 2 ^ 2 := by
        rw [hdiv]
        exact div_le_div₀ (by norm_num) hlt.le (by norm_num) hpow
      linarith
    subst hn1
    rw [hdiv] at hlow hup
    have hMeq : M = 2 ^ 52 := by
      have h1 : (M : ℚ) < 2 ^ 52 + 1 := by linarith
      norm_cast at h1 hM'
      omega
    obtain rfl : Q = t + 1 := by omega
    subst hMeq
    have hhalf : (2 ^ 53 : Nat) - 1 / 2 ≤ v / 2 ^ t := by
      unfold Rounds lowerEnd at hrounds
      rw [if_pos (by norm_num), if_pos ⟨rfl, by omega⟩, hdiv] at hrounds
      norm_num at hrounds ⊢
      linarith [hrounds.1]
    have hR : em.roundedMantissa = 2 ^ 53 := by
      refine hstands.roundedMantissa_eq hhalf ?_ fun h => absurd h (by norm_num)
      push_cast
      linarith
    exact roundWithAccuracy_of_carry hem hleast hR
  · -- the exponent is that of the result
    have hR : em.roundedMantissa = M := hstands.roundedMantissa_eq hlow hup hodd
    rw [roundWithAccuracy_of_lt hem hleast (by rw [hR]; exact hparts.pos)
      (by rw [hR]; exact hparts.lt)]
    exact finite_congr hR rfl
  · -- no exponent is larger than it has to be
    exfalso
    obtain ⟨n, hn⟩ := Int.eq_ofNat_of_zero_le (Int.sub_nonneg.2 hgt.le)
    have hdiv : v / 2 ^ t = v / 2 ^ Q / 2 ^ n := div_two_zpow v (by omega)
    have hlow' := hnormal.resolve_left (by have := hparts.least; omega)
    have hpow : (2 : ℚ) ^ 1 ≤ 2 ^ n := pow_le_pow_right₀ (by norm_num) (by omega)
    rw [hdiv, le_div_iff₀ (by positivity)] at hlow'
    linarith

end Rounding

end PageWalk.Double
