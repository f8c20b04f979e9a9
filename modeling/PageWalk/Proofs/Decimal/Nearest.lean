/-
PageWalk/Proofs/Decimal/Nearest.lean

Decimals are read as the nearest doubles.

A decimal is read by one product or quotient of doubles: with few digits
and a small exponent both factors are doubles themselves (`toFloat_eq`,
`powerOfTen_eq`), and else the factors are taken as they are.  Either way
the result is the rounding of the decimal (`ofScientific_mul`,
`ofScientific_div`), and the two decimals that are decided without it round
to no positive double (`nearestFloat_eq`).
-/
import PageWalk.Decimal.Reading
import PageWalk.Proofs.Decimal.Rounding
import Mathlib.Data.Int.Log
import Mathlib.Data.Rat.Floor

open Float.Model (Format UnpackedFloat)
open Float.Model.UnpackedFloat (Sign)

namespace PageWalk.Double

/-! ### Products and quotients -/

section Arithmetic

variable {s₁ s₂ : Sign} {m₁ m₂ m : Nat} {q₁ q₂ q : Int} {h₁ : 0 < m₁} {h₂ : 0 < m₂}

theorem log2_mul_two_pow {n : Nat} (hn : 0 < n) (k : Nat) : (n * 2 ^ k).log2 = n.log2 + k := by
  obtain ⟨hlow, hup⟩ := (Nat.log2_eq_iff hn.ne').1 rfl
  have hpos : 0 < n * 2 ^ k := by positivity
  rw [Nat.log2_eq_iff hpos.ne', pow_add, show n.log2 + k + 1 = n.log2 + 1 + k by omega, pow_add]
  exact ⟨Nat.mul_le_mul_right _ hlow, Nat.mul_lt_mul_of_pos_right hup (by positivity)⟩

theorem mul_eq (hlarge : 2 ^ 52 ≤ m₁ * m₂) (hparts : Parts m q)
    (hrounds : Rounds m q (m₁ * 2 ^ q₁ * (m₂ * 2 ^ q₂))) :
    UnpackedFloat.mul .binary64 (.finite s₁ m₁ q₁ h₁) (.finite s₂ m₂ q₂ h₂)
      = .finite (s₁ * s₂) m q hparts.pos := by
  have hlog : 52 ≤ (m₁ * m₂).log2 := (Nat.le_log2 (by positivity)).2 hlarge
  refine roundWithAccuracy_eq ?_ (by unfold target; omega) hparts hrounds
  have hv : (m₁ * 2 ^ q₁ * (m₂ * 2 ^ q₂) : ℚ) / 2 ^ (q₁ + q₂) = (m₁ * m₂ : Nat) := by
    have h1 := (two_zpow_pos q₁).ne'
    have h2 := (two_zpow_pos q₂).ne'
    rw [zpow_add₀ two_ne_zero]
    push_cast
    field_simp
  rw [hv]
  exact Stands.exact _

theorem div_eq (hparts : Parts m q) (hrounds : Rounds m q (m₁ * 2 ^ q₁ / (m₂ * 2 ^ q₂))) :
    UnpackedFloat.div .binary64 (.finite s₁ m₁ q₁ h₁) (.finite s₂ m₂ q₂ h₂)
      = .finite (s₁ / s₂) m q hparts.pos := by
  -- the quotient is taken far enough for 53 bits, if there are as many
  obtain ⟨t, ht, hle, hbits⟩ : ∃ t, t = min (q₁ - q₂) (Format.binary64.targetExponent
      (Float.Model.totalExponent m₁ q₁ - Float.Model.totalExponent m₂ q₂)) ∧ t ≤ q₁ - q₂ ∧
      t ≤ max (m₁.log2 - m₂.log2 + q₁ - q₂ - 53) (-1074) := by
    refine ⟨_, rfl, min_le_left _ _, le_trans (min_le_right _ _) ?_⟩
    show max ((m₁.log2 + 1 + q₁ - (m₂.log2 + 1 + q₂) : Int) - (53 : Nat))
      (3 - 2 ^ 10 - (53 : Nat)) ≤ _
    omega
  obtain ⟨k, hk⟩ := Int.eq_ofNat_of_zero_le (Int.sub_nonneg.2 hle)
  have hcore : UnpackedFloat.divCore .binary64 m₁ q₁ m₂ q₂ = (m₁ * 2 ^ k / m₂, t,
      UnpackedFloat.accuracyOfFraction (m₁ * 2 ^ k % m₂) m₂) := by
    unfold UnpackedFloat.divCore
    simp only [← ht, hk, Int.toNat_natCast, Nat.shiftLeft_eq]
  have hdiv : UnpackedFloat.div .binary64 (.finite s₁ m₁ q₁ h₁) (.finite s₂ m₂ q₂ h₂)
      = UnpackedFloat.roundWithAccuracy .binary64 (s₁ / s₂) (m₁ * 2 ^ k / m₂) t
        (UnpackedFloat.accuracyOfFraction (m₁ * 2 ^ k % m₂) m₂) := by
    unfold UnpackedFloat.div
    simp only [hcore]
  rw [hdiv]
  refine roundWithAccuracy_eq ?_ ?_ hparts hrounds
  · have hv : (m₁ * 2 ^ q₁ / (m₂ * 2 ^ q₂) : ℚ) / 2 ^ t = (m₁ * 2 ^ k : Nat) / m₂ := by
      have h1 := (two_zpow_pos t).ne'
      have h2 := (two_zpow_pos q₂).ne'
      have h3 : (m₂ : ℚ) ≠ 0 := by exact_mod_cast h₂.ne'
      rw [show q₁ = q₂ + t + k by omega, zpow_add₀ two_ne_zero, zpow_add₀ two_ne_zero,
        zpow_natCast]
      push_cast
      field_simp
    rw [hv]
    exact Stands.quotient _ h₂
  · by_cases hleast : t ≤ -1074
    · unfold target; omega
    · have hlow : 2 ^ (m₂.log2 + 53) ≤ m₁ * 2 ^ k := by
        calc 2 ^ (m₂.log2 + 53) ≤ 2 ^ (m₁.log2 + k) :=
              Nat.pow_le_pow_right (by norm_num) (by omega)
          _ = 2 ^ m₁.log2 * 2 ^ k := pow_add ..
          _ ≤ m₁ * 2 ^ k := Nat.mul_le_mul_right _ (Nat.log2_self_le h₁.ne')
      -- so the quotient has its 53 bits
      have hquot : 2 ^ 52 ≤ m₁ * 2 ^ k / m₂ := by
        rw [Nat.le_div_iff_mul_le h₂]
        calc 2 ^ 52 * m₂ ≤ 2 ^ 52 * 2 ^ (m₂.log2 + 1) :=
              Nat.mul_le_mul_left _ (Nat.lt_log2_self).le
          _ = 2 ^ (m₂.log2 + 53) := by rw [← pow_add]; congr 1; omega
          _ ≤ m₁ * 2 ^ k := hlow
      have hlog : 52 ≤ (m₁ * 2 ^ k / m₂).log2 :=
        (Nat.le_log2 (by omega)).2 hquot
      unfold target
      omega

/-- Rounding a whole number times a power of two. -/
theorem round_eq {s : Sign} (hpos : 0 < m₁) (hparts : Parts m q)
    (hrounds : Rounds m q (m₁ * 2 ^ q₁)) :
    UnpackedFloat.round .binary64 s m₁ q₁ = .finite s m q hparts.pos := by
  have hround : UnpackedFloat.round .binary64 s m₁ q₁
      = UnpackedFloat.roundWithAccuracy .binary64 s (m₁ * 2 ^ (q₁ - target m₁ q₁).toNat)
        (q₁ - (q₁ - target m₁ q₁).toNat) .exact := by
    unfold UnpackedFloat.round UnpackedFloat.decreaseExponent
    simp only [targetExponent_eq, Nat.shiftLeft_eq]
  rw [hround]
  generalize hk : (q₁ - target m₁ q₁).toNat = k
  refine roundWithAccuracy_eq ?_ ?_ hparts hrounds
  · have hv : (m₁ * 2 ^ q₁ : ℚ) / 2 ^ (q₁ - k) = (m₁ * 2 ^ k : Nat) := by
      have h1 := (two_zpow_pos q₁).ne'
      rw [zpow_sub₀ two_ne_zero, zpow_natCast]
      push_cast
      field_simp
    rw [hv]
    exact Stands.exact _
  · unfold target at hk ⊢
    rw [log2_mul_two_pow hpos]
    omega

end Arithmetic

/-! ### Factors that are doubles -/

/-- The parts of a whole number below `2 ^ 53`. -/
theorem parts_of_lt {n : Nat} (hpos : 0 < n) (hlt : n < 2 ^ 53) :
    Parts (n * 2 ^ (52 - n.log2)) (n.log2 - 52) := by
  have hlog : n.log2 < 53 := (Nat.log2_lt hpos.ne').2 hlt
  have hpos' : 0 < n * 2 ^ (52 - n.log2) := by positivity
  have hfull : (n * 2 ^ (52 - n.log2)).log2 = 52 := by rw [log2_mul_two_pow hpos]; omega
  obtain ⟨hlow, hup⟩ := (Nat.log2_eq_iff hpos'.ne').1 hfull
  exact ⟨hpos', hup, by omega, by omega, Or.inl hlow⟩

theorem parts_of_lt_value {n : Nat} (hpos : 0 < n) (hlt : n < 2 ^ 53) :
    ((n * 2 ^ (52 - n.log2) : Nat) : ℚ) * 2 ^ ((n.log2 : Int) - 52) = n := by
  have hlog : n.log2 < 53 := (Nat.log2_lt hpos.ne').2 hlt
  have hexp : (n.log2 : Int) - 52 = -((52 - n.log2 : Nat) : Int) := by omega
  rw [hexp, zpow_neg, zpow_natCast]
  push_cast
  field_simp

/-- A whole number below `2 ^ 53` is a double. -/
theorem toFloat_eq {n : Nat} (hpos : 0 < n) (hlt : n < 2 ^ 53) :
    n.toUInt64.toFloat = ofParts .positive (parts_of_lt hpos hlt) := by
  have hn : n.toUInt64.toNat = n := by
    show n % 2 ^ 64 = n
    omega
  have hcmp : compare (n : Int) 0 = .gt := Int.compare_eq_gt.2 (by omega)
  have hrounds : Rounds (n * 2 ^ (52 - n.log2)) (n.log2 - 52) (n * 2 ^ (0 : Int)) := by
    rw [zpow_zero, mul_one]
    conv => arg 3; rw [← parts_of_lt_value hpos hlt]
    exact Rounds.self (parts_of_lt hpos hlt).pos _
  have hround := round_eq (s := .positive) hpos (parts_of_lt hpos hlt) hrounds
  show Float.ofModel (.pack (UnpackedFloat.normalize .binary64 (n.toUInt64.toNat : Int) 0 _)) = _
  unfold UnpackedFloat.normalize
  rw [hn, hcmp]
  show Float.ofModel (.pack (UnpackedFloat.round .binary64 .positive n 0)) = _
  rw [hround]
  rfl

/-- The mantissa of `10 ^ e`, with 53 bits. -/
def tenMantissa (e : Nat) : Nat := 10 ^ e * 2 ^ 52 / 2 ^ (10 ^ e).log2

/-- The exponent of `10 ^ e`, if its mantissa has 53 bits. -/
def tenExponent (e : Nat) : Int := (10 ^ e).log2 - 52

/-- The table of powers of ten, entry by entry. -/
theorem powersOfTen_table : ∀ e : Fin Float.exactlyRepresentablePowersOfTen.size,
    (∃ h : 0 < tenMantissa e, Float.exactlyRepresentablePowersOfTen[e]
      = .ofModel (.pack (.finite .positive (tenMantissa e) (tenExponent e) h))) ∧
    (2 ^ 52 ≤ tenMantissa e ∧ tenMantissa e < 2 ^ 53 ∧ -52 ≤ tenExponent e ∧ tenExponent e ≤ 22) ∧
    tenMantissa e * 2 ^ (tenExponent e + 52).toNat = 10 ^ e.val * 2 ^ 52 := by
  decide +kernel

/-- The powers of ten of the table are doubles. -/
theorem powerOfTen_eq {e : Nat} (he : e < Float.exactlyRepresentablePowersOfTen.size) :
    ∃ m q, ∃ h : Parts m q, Float.exactlyRepresentablePowersOfTen[e] = ofParts .positive h ∧
      2 ^ 52 ≤ m ∧ (m : ℚ) * 2 ^ q = 10 ^ e := by
  obtain ⟨⟨hpos, heq⟩, ⟨hlow, hlt, hleast, hmost⟩, hvalue⟩ := powersOfTen_table ⟨e, he⟩
  dsimp only at hpos heq hlow hlt hleast hmost hvalue
  refine ⟨_, _, ⟨hpos, hlt, by omega, by omega, Or.inl hlow⟩, heq, hlow, ?_⟩
  obtain ⟨k, hk⟩ := Int.eq_ofNat_of_zero_le (show 0 ≤ tenExponent e + 52 by omega)
  rw [hk, Int.toNat_natCast] at hvalue
  have hvalue' : (tenMantissa e : ℚ) * 2 ^ k = 10 ^ e * 2 ^ 52 := by exact_mod_cast hvalue
  rw [show tenExponent e = k - (52 : Nat) by omega, zpow_sub₀ two_ne_zero, zpow_natCast,
    zpow_natCast, ← mul_div_assoc, hvalue']
  field_simp

/-! ### Reading a decimal -/

section Scientific

variable {d : Nat} {m : Nat} {q : Int} {v : ℚ}

theorem Rounds.lt_two_pow (h : Parts m q) (hrounds : Rounds m q v) : v < 2 ^ 1024 := by
  have hm : (m : ℚ) + 1 ≤ 2 ^ 53 := by exact_mod_cast h.lt
  have hq : (2 : ℚ) ^ q ≤ 2 ^ (971 : Int) := zpow_le_zpow_right₀ (by norm_num) h.most
  have hdiv := (hrounds.bounds h.pos).2.1
  have hpos := two_zpow_pos q
  rw [div_le_iff₀ hpos] at hdiv
  calc v ≤ (m + 1 / 2) * 2 ^ q := hdiv
    _ < 2 ^ 53 * 2 ^ q := mul_lt_mul_of_pos_right (by linarith) hpos
    _ ≤ 2 ^ 53 * 2 ^ (971 : Int) := mul_le_mul_of_nonneg_left hq (by positivity)
    _ = 2 ^ 1024 := by
      rw [show (971 : Int) = (971 : Nat) from rfl, zpow_natCast, ← pow_add]

theorem Rounds.one_lt (h : Parts m q) (hrounds : Rounds m q v) : 1 < v * 2 ^ 1076 := by
  have hm : (1 : ℚ) ≤ m := by exact_mod_cast h.pos
  have hq : (2 : ℚ) ^ (-1074 : Int) ≤ 2 ^ q := zpow_le_zpow_right₀ (by norm_num) h.least
  have hdiv := (hrounds.bounds h.pos).1
  rw [le_div_iff₀ (two_zpow_pos q)] at hdiv
  have hlow : 1 / 2 * 2 ^ (-1074 : Int) ≤ v := by
    refine le_trans ?_ hdiv
    exact mul_le_mul (by linarith) hq (two_zpow_pos _).le (by linarith)
  calc (1 : ℚ) < 2 := one_lt_two
    _ = 1 / 2 * 2 ^ (-1074 : Int) * 2 ^ 1076 := by
      rw [show (-1074 : Int) = -(1074 : Nat) from rfl, zpow_neg, zpow_natCast,
        show (1076 : Nat) = 1074 + 2 from rfl, pow_add]
      field_simp
    _ ≤ v * 2 ^ 1076 := mul_le_mul_of_nonneg_right hlow (by positivity)

/-- A product with a power of ten is rounded to its nearest double. -/
theorem ofScientific_mul (hd : 0 < d) (e : Nat) (h : Parts m q)
    (hrounds : Rounds m q (d * 10 ^ e)) :
    Float.ofScientific d false e = ofParts .positive h := by
  unfold Float.ofScientific
  split
  · -- both factors are doubles
    rename_i hsmall
    have he : e < Float.exactlyRepresentablePowersOfTen.size := by show e < 23; omega
    obtain ⟨p, r, hp, htable, hfull, hvalue⟩ := powerOfTen_eq he
    have hd' := parts_of_lt hd hsmall.1
    have hlarge := hfull.trans (Nat.le_mul_of_pos_left p hd'.pos)
    show d.toUInt64.toFloat * Float.exactlyRepresentablePowersOfTen[e] = _
    rw [toFloat_eq hd hsmall.1, htable]
    show Float.ofModel (.pack (UnpackedFloat.mul .binary64 (ofParts .positive hd').toModel.unpack
      (ofParts .positive hp).toModel.unpack)) = _
    rw [unpack_ofParts, unpack_ofParts, mul_eq hlarge h]
    · rfl
    · rw [parts_of_lt_value hd hsmall.1, hvalue]
      exact hrounds
  · -- the factors are taken as they are
    -- what rounds to a double is not beyond the largest
    have hbound : e ≤ 2048 := by
      by_contra hlarge
      have h1 : (10 : ℚ) ^ 2048 ≤ 10 ^ e := pow_le_pow_right₀ (by norm_num) (by omega)
      have h2 : (1 : ℚ) ≤ d := by exact_mod_cast hd
      have h3 : (2 : ℚ) ^ 2048 ≤ 10 ^ 2048 := pow_le_pow_left₀ (by norm_num) (by norm_num) _
      have h4 : (2 : ℚ) ^ 1024 ≤ 2 ^ 2048 := pow_le_pow_right₀ (by norm_num) (by norm_num)
      have h5 := hrounds.lt_two_pow h
      have h6 : (10 : ℚ) ^ e ≤ d * 10 ^ e := le_mul_of_one_le_left (by positivity) h2
      exact lt_irrefl _ (h5.trans_le (h4.trans (h3.trans (h1.trans h6))))
    show Float.ofModel (.pack (UnpackedFloat.ofScientific .binary64 d e)) = _
    unfold UnpackedFloat.ofScientific
    rw [dif_neg hd.ne', if_neg (by show ¬ (e : Int) > 2 ^ 11; omega),
      if_neg (by show ¬ (e : Int) < -(2 ^ 11 + _); omega), if_pos (by omega), mul_eq ?_ h]
    · rfl
    · have hv : ((d * 2 ^ 53 : Nat) : ℚ) * 2 ^ (-(53 : Nat) : Int)
          * ((10 ^ e : Nat) * 2 ^ (0 : Int)) = d * 10 ^ e := by
        rw [zpow_neg, zpow_natCast, zpow_zero]
        push_cast
        ring
      rw [Nat.shiftLeft_eq, Int.toNat_natCast]
      show Rounds m q (((d * 2 ^ 53 : Nat) : ℚ) * 2 ^ (-(53 : Nat) : Int) * _)
      rw [hv]
      exact hrounds
    · rw [Nat.shiftLeft_eq, show Format.binary64.mantissaBits = 53 from rfl]
      have h1 : 0 < 10 ^ (e : Int).toNat := by positivity
      calc 2 ^ 52 ≤ 1 * 2 ^ 53 * 1 := by norm_num
        _ ≤ d * 2 ^ 53 * 10 ^ (e : Int).toNat :=
          Nat.mul_le_mul (Nat.mul_le_mul_right _ hd) h1

/-- A quotient by a power of ten is rounded to its nearest double. -/
theorem ofScientific_div (hd : 0 < d) {e : Nat} (he : 0 < e) (h : Parts m q)
    (hrounds : Rounds m q (d / 10 ^ e)) :
    Float.ofScientific d true e = ofParts .positive h := by
  unfold Float.ofScientific
  split
  · -- both parts are doubles
    rename_i hsmall
    have he : e < Float.exactlyRepresentablePowersOfTen.size := by show e < 23; omega
    obtain ⟨p, r, hp, htable, -, hvalue⟩ := powerOfTen_eq he
    have hd' := parts_of_lt hd hsmall.1
    show d.toUInt64.toFloat / Float.exactlyRepresentablePowersOfTen[e] = _
    rw [toFloat_eq hd hsmall.1, htable]
    show Float.ofModel (.pack (UnpackedFloat.div .binary64 (ofParts .positive hd').toModel.unpack
      (ofParts .positive hp).toModel.unpack)) = _
    rw [unpack_ofParts, unpack_ofParts, div_eq h]
    · rfl
    · rw [parts_of_lt_value hd hsmall.1, hvalue]
      exact hrounds
  · -- they are taken as they are
    -- what rounds to a positive double is not below half the least
    have hbound : e ≤ 1077 + d.log2 := by
      by_contra hlarge
      have h1 := lt_two_pow_log2 d
      have h2 : (2 : ℚ) ^ (d.log2 + 1 + 1076) ≤ 10 ^ e :=
        (pow_le_pow_left₀ (by norm_num) (by norm_num) _).trans
          (pow_le_pow_right₀ (show (1 : ℚ) ≤ 10 by norm_num) (by omega))
      have h3 := hrounds.one_lt h
      rw [pow_add] at h2
      rw [div_mul_eq_mul_div, one_lt_div (by positivity)] at h3
      have h4 : (d : ℚ) * 2 ^ 1076 ≤ 2 ^ (d.log2 + 1) * 2 ^ 1076 :=
        mul_le_mul_of_nonneg_right ((le_add_of_nonneg_right zero_le_one).trans h1)
          (by positivity)
      exact lt_irrefl _ (h3.trans_le (h4.trans h2))
    show Float.ofModel (.pack (UnpackedFloat.ofScientific .binary64 d (Int.negOfNat e))) = _
    rw [show Int.negOfNat e = -(e : Int) from Int.negOfNat_eq]
    unfold UnpackedFloat.ofScientific
    rw [dif_neg hd.ne', if_neg (by show ¬ -(e : Int) > 2 ^ 11; omega),
      if_neg (by show ¬ -(e : Int) < -(2 ^ 11 + (d.log2 : Int)); omega), if_neg (by omega),
      div_eq h]
    · rfl
    · rw [neg_neg, Int.toNat_natCast, zpow_zero, mul_one, mul_one]
      push_cast
      exact hrounds

end Scientific

/-! ### Decimals far outside the range -/

/-- The number of digits of a positive number. -/
theorem digits_bounds {d : Nat} (hd : 0 < d) :
    (10 : ℚ) ^ (((Nat.toDigits 10 d).length : Int) - 1) ≤ d ∧
      (d : ℚ) < 10 ^ ((Nat.toDigits 10 d).length : Int) := by
  generalize hk : (Nat.toDigits 10 d).length = k
  have hpos : 0 < k := hk ▸ Nat.length_toDigits_pos
  obtain ⟨j, rfl⟩ : ∃ j, k = j + 1 := ⟨k - 1, by omega⟩
  have hup : d < 10 ^ (j + 1) := (Nat.length_toDigits_le_iff (by norm_num) hpos).1 hk.le
  have hlow : 10 ^ j ≤ d := by
    rcases Nat.eq_zero_or_pos j with rfl | hj
    · exact hd
    · by_contra hlt
      have := (Nat.length_toDigits_le_iff (b := 10) (by norm_num) hj).2 (not_le.1 hlt)
      omega
  refine ⟨?_, ?_⟩
  · rw [Nat.cast_succ, add_sub_cancel_right, zpow_natCast]
    exact_mod_cast hlow
  · rw [zpow_natCast]
    exact_mod_cast hup

theorem two_pow_le_ten_pow : 2 ^ 1076 ≤ 10 ^ 330 := by decide +kernel

/-- **Decimals are read as the nearest doubles.** -/
theorem nearestFloat_eq {d m : Nat} {e q : Int} (h : Parts m q)
    (hrounds : Rounds m q (d * 10 ^ e)) : Decimal.nearestFloat d e = ofParts .positive h := by
  have hten : (2 : ℚ) ^ 1076 ≤ 10 ^ (330 : Int) := by
    rw [show (330 : Int) = (330 : Nat) from rfl, zpow_natCast]
    exact_mod_cast two_pow_le_ten_pow
  have hd : 0 < d := by
    apply Nat.pos_of_ne_zero
    rintro rfl
    have := hrounds.pos h.pos
    rw [Nat.cast_zero, zero_mul] at this
    exact lt_irrefl _ this
  obtain ⟨hlow, hup⟩ := digits_bounds hd
  have hpos : (0 : ℚ) < 10 ^ e := zpow_pos (by norm_num) e
  unfold Decimal.nearestFloat
  generalize ((Nat.toDigits 10 d).length : Int) = k at *
  dsimp only
  split
  · -- too small
    rename_i hsmall
    exfalso
    have hpoint : k + e ≤ -330 := by
      simp only [Bool.or_eq_true, decide_eq_true_eq] at hsmall
      omega
    have hv : (d : ℚ) * 10 ^ e ≤ 10 ^ (-330 : Int) := by
      calc (d : ℚ) * 10 ^ e ≤ 10 ^ k * 10 ^ e := mul_le_mul_of_nonneg_right hup.le hpos.le
        _ = 10 ^ (k + e) := (zpow_add₀ (by norm_num) _ _).symm
        _ ≤ 10 ^ (-330 : Int) := zpow_le_zpow_right₀ (by norm_num) hpoint
    have hone := hrounds.one_lt h
    have hle : (d : ℚ) * 10 ^ e * 2 ^ 1076 ≤ 1 := by
      calc (d : ℚ) * 10 ^ e * 2 ^ 1076 ≤ 10 ^ (-330 : Int) * 10 ^ (330 : Int) :=
            mul_le_mul hv hten (by positivity) (by positivity)
        _ = 1 := by rw [← zpow_add₀ (by norm_num)]; norm_num
    exact lt_irrefl _ (hone.trans_le hle)
  · split
    · -- too large
      rename_i hlarge
      exfalso
      have hv : (10 : ℚ) ^ (330 : Int) ≤ d * 10 ^ e := by
        calc (10 : ℚ) ^ (330 : Int) ≤ 10 ^ (k - 1 + e) :=
              zpow_le_zpow_right₀ (by norm_num) (by omega)
          _ = 10 ^ (k - 1) * 10 ^ e := zpow_add₀ (by norm_num) _ _
          _ ≤ d * 10 ^ e := mul_le_mul_of_nonneg_right hlow hpos.le
      have h1024 : (2 : ℚ) ^ 1024 ≤ 2 ^ 1076 := pow_le_pow_right₀ (by norm_num) (by norm_num)
      exact lt_irrefl _ ((hrounds.lt_two_pow h).trans_le (h1024.trans (hten.trans hv)))
    · split
      · -- a product
        rename_i he
        obtain ⟨n, rfl⟩ := Int.eq_ofNat_of_zero_le he
        rw [zpow_natCast] at hrounds
        exact ofScientific_mul hd n h hrounds
      · -- a quotient
        rename_i he
        obtain ⟨n, rfl⟩ := Int.exists_eq_neg_ofNat (not_le.1 he).le
        rw [zpow_neg, zpow_natCast, ← div_eq_mul_inv] at hrounds
        rw [neg_neg]
        exact ofScientific_div hd (by omega) h hrounds

/-! ### There is a nearest double -/

/-- Every rational between the least and the largest doubles rounds to one
of them. -/
theorem exists_rounds {v : ℚ} (hlow : 2 ^ (-1074 : Int) ≤ v) (hup : v < 2 ^ (1023 : Int)) :
    ∃ m q, Parts m q ∧ Rounds m q v := by
  have hv : 0 < v := (two_zpow_pos _).trans_le hlow
  -- the exponent, and the mantissa before rounding
  obtain ⟨q, hleast, hmost, hone, hlt, hfull⟩ : ∃ q : Int, -1074 ≤ q ∧ q ≤ 970 ∧
      1 ≤ v / 2 ^ q ∧ v / 2 ^ q < 2 ^ 53 ∧ (q = -1074 ∨ 2 ^ 52 ≤ v / 2 ^ q) := by
    have hlog : (2 : ℚ) ^ Int.log 2 v ≤ v := Int.zpow_log_le_self (by norm_num) hv
    have hlog' : v < (2 : ℚ) ^ (Int.log 2 v + 1) := Int.lt_zpow_succ_log_self (by norm_num) v
    have hmost : Int.log 2 v < 1023 :=
      (zpow_lt_zpow_iff_right₀ (by norm_num : (1 : ℚ) < 2)).1 (hlog.trans_lt hup)
    generalize Int.log 2 v = k at *
    have hbelow : v / 2 ^ max (k - 52) (-1074) < 2 ^ 53 := by
      rw [div_lt_iff₀ (two_zpow_pos _), ← zpow_natCast, ← zpow_add₀ two_ne_zero]
      exact hlog'.trans_le (zpow_le_zpow_right₀ (by norm_num) (by push_cast; omega))
    by_cases hk : k - 52 ≤ -1074
    · rw [max_eq_right hk] at hbelow
      refine ⟨-1074, le_rfl, by omega, ?_, hbelow, Or.inl rfl⟩
      rw [le_div_iff₀ (two_zpow_pos _), one_mul]
      exact hlow
    · rw [max_eq_left (by omega)] at hbelow
      have habove : (2 : ℚ) ^ 52 ≤ v / 2 ^ (k - 52) := by
        rw [le_div_iff₀ (two_zpow_pos _), ← zpow_natCast, ← zpow_add₀ two_ne_zero]
        exact (zpow_le_zpow_right₀ (by norm_num) (by push_cast; omega)).trans hlog
      exact ⟨k - 52, by omega, by omega, le_trans (by norm_num) habove, hbelow, Or.inr habove⟩
  generalize hx : v / 2 ^ q = x at *
  -- rounding it
  obtain ⟨m, hnear, hnear', hodd⟩ : ∃ m : Nat, (m : ℚ) - 1 / 2 ≤ x ∧ x ≤ m + 1 / 2 ∧
      (m % 2 = 1 → (m : ℚ) - 1 / 2 < x ∧ x < m + 1 / 2) := by
    have hfloor := Nat.floor_le (zero_le_one.trans hone)
    have hfloor' := Nat.lt_floor_add_one x
    generalize ⌊x⌋₊ = n at *
    rcases lt_trichotomy (x - n) (1 / 2) with h | h | h
    · exact ⟨n, by linarith, by linarith, fun _ => ⟨by linarith, by linarith⟩⟩
    · rcases Nat.mod_two_eq_zero_or_one n with heven | hodd
      · exact ⟨n, by linarith, by linarith, fun _ => by omega⟩
      · refine ⟨n + 1, ?_, ?_, fun _ => by omega⟩
        · push_cast; linarith
        · push_cast; linarith
    · refine ⟨n + 1, ?_, ?_, fun _ => ⟨?_, ?_⟩⟩ <;> push_cast <;> linarith
  have hpos : 0 < m := by
    have : (0 : ℚ) < m := by linarith
    exact_mod_cast this
  have hle : m ≤ 2 ^ 53 := by
    have : (m : ℚ) < 2 ^ 53 + 1 := by linarith
    norm_cast at this
    omega
  rcases hle.lt_or_eq with hlt' | rfl
  · refine ⟨m, q, ⟨hpos, hlt', hleast, by omega, ?_⟩, Rounds.of_near hpos ?_ ?_ ?_ ?_⟩
    · rcases hfull with h | h
      · exact Or.inr h
      · left
        have : (2 : ℚ) ^ 52 < m + 1 := by linarith
        norm_cast at this
        omega
    · rw [hx]; exact hnear
    · rw [hx]; exact hnear'
    · rw [hx]; exact hodd
    · intro hpower hq
      have h := hfull.resolve_left (by omega)
      rw [hx, hpower]
      push_cast
      linarith
  · -- the next power of two
    have hdiv : v / 2 ^ (q + 1) = x / 2 := by
      rw [div_two_zpow v (a := q) (b := q + 1) (n := 1) rfl, hx, pow_one]
    push_cast at hnear
    refine ⟨2 ^ 52, q + 1, ⟨by norm_num, by norm_num, by omega, by omega, Or.inl le_rfl⟩,
      Rounds.of_near (by norm_num) ?_ ?_ ?_ ?_⟩
    · rw [hdiv]; push_cast; linarith
    · rw [hdiv]; push_cast; linarith
    · intro h
      exact absurd h (by norm_num)
    · intro _ _
      rw [hdiv]; push_cast; linarith

/-- A positive whole number that is not too large is rounded to a positive
double. -/
theorem ofNat_rounds {n : Nat} (hpos : 0 < n) (hlt : n < 2 ^ 1023) :
    ∃ m q, ∃ h : Parts m q, Float.ofNat n = ofParts .positive h ∧ Rounds m q n := by
  have hlow : (2 : ℚ) ^ (-1074 : Int) ≤ n := by
    calc (2 : ℚ) ^ (-1074 : Int) ≤ 2 ^ (0 : Int) := zpow_le_zpow_right₀ (by norm_num) (by norm_num)
      _ ≤ n := by rw [zpow_zero]; exact_mod_cast hpos
  have hup : (n : ℚ) < 2 ^ (1023 : Int) := by
    rw [show (1023 : Int) = (1023 : Nat) from rfl, zpow_natCast]
    exact_mod_cast hlt
  obtain ⟨m, q, hparts, hrounds⟩ := exists_rounds hlow hup
  refine ⟨m, q, hparts, ofScientific_mul hpos 0 hparts ?_, hrounds⟩
  rw [pow_zero, mul_one]
  exact hrounds

theorem ofNat_eq {n : Nat} (hpos : 0 < n) (hlt : n < 2 ^ 1023) :
    ∃ m q, ∃ h : Parts m q, Float.ofNat n = ofParts .positive h := by
  obtain ⟨m, q, h, heq, -⟩ := ofNat_rounds hpos hlt
  exact ⟨m, q, h, heq⟩

/-- A whole number that is not too large is finite. -/
theorem isFinite_ofNat {n : Nat} (hlt : n < 2 ^ 1023) :
    (Float.ofNat n).toModel.unpack.isFinite = true := by
  rcases Nat.eq_zero_or_pos n with rfl | hpos
  · decide +kernel
  · obtain ⟨m, q, h, heq⟩ := ofNat_eq hpos hlt
    rw [heq, unpack_ofParts]
    rfl

/-- A product with a whole number is a number, if the other factor is
finite. -/
theorem isNaN_mul_ofNat {x : Float} (hx : x.toModel.unpack.isFinite = true) {n : Nat}
    (hlt : n < 2 ^ 1023) : (x * Float.ofNat n).isNaN = false := by
  have hmul : ∀ u v : UnpackedFloat, u.isFinite = true → v.isFinite = true →
      (UnpackedFloat.mul .binary64 u v).isNaN = false := by
    intro u v hu hv
    match u, v, hu, hv with
    | .zero _, .zero _, _, _ => rfl
    | .zero _, .finite .., _, _ => rfl
    | .finite .., .zero _, _, _ => rfl
    | .finite .., .finite .., _, _ =>
      unfold UnpackedFloat.mul UnpackedFloat.roundWithAccuracy
      dsimp only
      split <;> rfl
  exact isNaN_pack (hmul _ _ hx (isFinite_ofNat hlt))

/-- A quotient by a positive whole number is a number, if the dividend is
one. -/
theorem isNaN_div_ofNat {x : Float} (hx : x.isNaN = false) {n : Nat} (hpos : 0 < n)
    (hlt : n < 2 ^ 1023) : (x / Float.ofNat n).isNaN = false := by
  obtain ⟨m, q, h, heq⟩ := ofNat_eq hpos hlt
  rw [heq]
  have hdiv : ∀ u : UnpackedFloat, u.isNaN = false →
      (UnpackedFloat.div .binary64 u (.finite .positive m q h.pos)).isNaN = false := by
    intro u hu
    cases u with
    | notANumber => cases hu
    | infinity s => rfl
    | zero s => rfl
    | finite s m' q' hpos' =>
      unfold UnpackedFloat.div UnpackedFloat.roundWithAccuracy
      dsimp only
      split <;> rfl
  show (Float.Model.pack (UnpackedFloat.div .binary64 x.toModel.unpack
    (ofParts .positive h).toModel.unpack)).unpack.isNaN = false
  rw [unpack_ofParts]
  exact isNaN_pack (hdiv _ hx)

/-- A quotient of whole numbers is a number, unless both are zero. -/
theorem isNaN_ofNat_div_ofNat {a b : Nat} (ha : a < 2 ^ 1023) (hb : 0 < b) (hb' : b < 2 ^ 1023) :
    (Float.ofNat a / Float.ofNat b).isNaN = false := by
  refine isNaN_div_ofNat ?_ hb hb'
  have hfinite := isFinite_ofNat ha
  show (Float.ofNat a).toModel.unpack.isNaN = false
  cases hu : (Float.ofNat a).toModel.unpack with
  | notANumber => rw [hu] at hfinite; cases hfinite
  | infinity s => rfl
  | zero s => rfl
  | finite s m q hpos => rfl

/-! ### Finite quotients -/

/-- Rounding changes a number by a factor of two at most. -/
theorem Rounds.near {m : Nat} {q : Int} {v : ℚ} (hm : 0 < m) (h : Rounds m q v) :
    v / 2 ≤ m * 2 ^ q ∧ (m : ℚ) * 2 ^ q ≤ 2 * v := by
  obtain ⟨hlow, hup, -⟩ := h.bounds hm
  have hm' : (1 : ℚ) ≤ m := by exact_mod_cast hm
  have hq := two_zpow_pos q
  rw [le_div_iff₀ hq] at hlow
  rw [div_le_iff₀ hq] at hup
  constructor <;> nlinarith

theorem lt_two_pow_1023 {n : Nat} (h : n < 2 ^ 200) : n < 2 ^ 1023 :=
  lt_of_lt_of_le h (pow_le_pow_right₀ one_le_two (by omega))

/-- The quotient of numbers that are far from the ends of the range of doubles
is in that range. -/
theorem quotient_range {v w : ℚ} (hv : 1 / 2 ≤ v ∧ v ≤ 2 ^ 201) (hw : 1 / 2 ≤ w ∧ w ≤ 2 ^ 201) :
    2 ^ (-1074 : Int) ≤ v / w ∧ v / w < 2 ^ (1023 : Int) := by
  have hpos : 0 < w := by linarith
  have hsmall : (2 : ℚ) ^ (-1074 : Int) ≤ 2 ^ (-202 : Int) :=
    zpow_le_zpow_right₀ (by norm_num) (by norm_num)
  have hlarge : (2 : ℚ) ^ (203 : Int) ≤ 2 ^ (1023 : Int) :=
    zpow_le_zpow_right₀ (by norm_num) (by norm_num)
  have hlow : 2 ^ (-202 : Int) ≤ v / w := by
    rw [le_div_iff₀ hpos]
    calc (2 : ℚ) ^ (-202 : Int) * w ≤ 2 ^ (-202 : Int) * 2 ^ 201 :=
          mul_le_mul_of_nonneg_left hw.2 (by positivity)
      _ ≤ v := by norm_num; linarith only [hv.1]
  have hup : v / w < 2 ^ (203 : Int) := by
    rw [div_lt_iff₀ hpos]
    calc v ≤ 2 ^ 201 := hv.2
      _ < (2 : ℚ) ^ (203 : Int) * (1 / 2) := by norm_num
      _ ≤ 2 ^ (203 : Int) * w := mul_le_mul_of_nonneg_left hw.1 (by positivity)
  exact ⟨hsmall.trans hlow, hup.trans_le hlarge⟩

/-- **A quotient of whole numbers** that are not too large is finite, unless
the second is zero. -/
theorem isFinite_ofNat_div_ofNat {a b : Nat} (ha : a < 2 ^ 200) (hb : 0 < b) (hb' : b < 2 ^ 200) :
    (Float.ofNat a / Float.ofNat b).isFinite = true := by
  -- positive numbers are rounded near to themselves
  have hround : ∀ n : Nat, 0 < n → n < 2 ^ 200 → ∃ m q, ∃ h : Parts m q,
      Float.ofNat n = ofParts .positive h ∧
        (1 / 2 ≤ (m : ℚ) * 2 ^ q ∧ (m : ℚ) * 2 ^ q ≤ 2 ^ 201) := by
    intro n hpos hlt
    obtain ⟨m, q, h, heq, hrounds⟩ := ofNat_rounds hpos (lt_two_pow_1023 hlt)
    obtain ⟨hlow, hup⟩ := hrounds.near h.pos
    have hone : (1 : ℚ) ≤ n := by exact_mod_cast hpos
    have hmost : (n : ℚ) ≤ 2 ^ 200 := by exact_mod_cast hlt.le
    exact ⟨m, q, h, heq, by linarith, by linarith⟩
  obtain ⟨m₂, q₂, h₂, heq₂, hrange₂⟩ := hround b hb hb'
  have hdiv : (Float.ofNat a / Float.ofNat b).isFinite
      = (Float.Model.pack (UnpackedFloat.div .binary64 (Float.ofNat a).toModel.unpack
        (.finite .positive m₂ q₂ h₂.pos))).unpack.isFinite := by
    rw [heq₂, ← unpack_ofParts h₂]
    rfl
  rw [hdiv]
  rcases Nat.eq_zero_or_pos a with rfl | hpos
  · rw [show (Float.ofNat 0).toModel.unpack = .zero .positive from rfl]
    show (Float.Model.pack (.zero .positive)).unpack.isFinite = true
    rfl
  · obtain ⟨m₁, q₁, h₁, heq₁, hrange₁⟩ := hround a hpos ha
    obtain ⟨hlow, hup⟩ := quotient_range hrange₁ hrange₂
    obtain ⟨m, q, h, hrounds⟩ := exists_rounds hlow hup
    rw [heq₁, unpack_ofParts, div_eq h hrounds]
    show (ofParts _ h).toModel.unpack.isFinite = true
    rw [unpack_ofParts]
    rfl

end PageWalk.Double
