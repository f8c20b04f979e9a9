/-
PageWalk/Proofs/Decimal/Double.lean

Doubles, their bits and their parts.

Arithmetic on doubles takes them apart, computes, and packs the result
again, so a fact about a result is one about `pack` followed by `unpack`.
Every double is what packing something gives (`kinds`), and the parts of a
double are read back from it (`unpack_ofParts`).
-/
import PageWalk.Decimal.Double
import Mathlib

open Float.Model (Format UnpackedFloat)
open Float.Model.UnpackedFloat (Sign packComponents unpackSign unpackExponent unpackMantissa)

namespace PageWalk.Double

/-! ### The fields of a word -/

/-- The mantissa of a normal double, with its leading one. -/
theorem toNat_one_append (m : BitVec 52) : (1#1 ++ m).toNat = 2 ^ 52 + m.toNat := by
  rw [BitVec.toNat_append, ← Nat.shiftLeft_add_eq_or_of_lt m.isLt]
  rfl

section Fields

variable (b : BitVec Format.binary64.numBits)

theorem toNat_lt : b.toNat < 2 ^ 64 := b.isLt

theorem toNat_unpackMantissa : (unpackMantissa b).toNat = b.toNat % 2 ^ 52 := by
  simp [unpackMantissa]

theorem toNat_unpackExponent : (unpackExponent b).toNat = b.toNat / 2 ^ 52 % 2 ^ 11 := by
  simp [unpackExponent, Nat.shiftRight_eq_div_pow]

theorem toNat_unpackSign : (unpackSign b).toNat = b.toNat / 2 ^ 63 := by
  have hlt := toNat_lt b
  simp [unpackSign, Nat.shiftRight_eq_div_pow]
  omega

theorem ofBitVec_unpackSign :
    Sign.ofBitVec (unpackSign b) = if b.toNat / 2 ^ 63 = 1 then .negative else .positive := by
  have hlt := toNat_lt b
  have hs := toNat_unpackSign b
  unfold Sign.ofBitVec
  simp only [← BitVec.toNat_inj, hs, BitVec.toNat_ofNat]
  split <;> split <;> first | rfl | omega

end Fields

/-! ### The parts of positive doubles -/

/-- The mantissas and exponents of the positive doubles. -/
structure Parts (m : Nat) (q : Int) : Prop where
  pos : 0 < m
  lt : m < 2 ^ 53
  least : -1074 ≤ q
  most : q ≤ 971
  full : 2 ^ 52 ≤ m ∨ q = -1074

/-- The double with these parts. -/
def ofParts (s : Sign) {m : Nat} {q : Int} (h : Parts m q) : Float :=
  .ofModel (.pack (.finite s m q h.pos))

/-- What a double stands for, from what arithmetic takes it apart to. -/
def ofUnpacked : UnpackedFloat → Double
  | .notANumber => .notANumber
  | .infinity s => .infinite (s == .negative)
  | .zero s => .finite (s == .negative) 0 (-1074)
  | .finite s m q _ => .finite (s == .negative) m q

/-- What arithmetic takes a double apart to is what it stands for. -/
theorem ofFloat_eq (x : Float) : ofFloat x = ofUnpacked x.toModel.unpack := by
  let b : BitVec Format.binary64.numBits := x.toModel.toBits.toBitVec
  have hm := toNat_unpackMantissa b
  have he := toNat_unpackExponent b
  have hsign : (Sign.ofBitVec (unpackSign b) == .negative) = decide (b.toNat / 2 ^ 63 = 1) := by
    rw [ofBitVec_unpackSign]
    split
    · rename_i h
      exact (decide_eq_true h).symm
    · rename_i h
      exact (decide_eq_false h).symm
  have hlast : unpackExponent b = -1#11 ↔ b.toNat / 2 ^ 52 % 2 ^ 11 = 2 ^ 11 - 1 := by
    rw [← BitVec.toNat_inj, he]; rfl
  have hzero : unpackExponent b = 0#11 ↔ b.toNat / 2 ^ 52 % 2 ^ 11 = 0 := by
    rw [← BitVec.toNat_inj, he]; rfl
  have hnone : unpackMantissa b = 0#52 ↔ b.toNat % 2 ^ 52 = 0 := by
    rw [← BitVec.toNat_inj, hm]; rfl
  -- the fields of the word by division, as `ofFloat` takes them
  show (if b.toNat / 2 ^ 52 % 2 ^ 11 = 2 ^ 11 - 1 then
      if b.toNat % 2 ^ 52 = 0 then infinite (decide (b.toNat / 2 ^ 63 = 1)) else notANumber
    else if b.toNat / 2 ^ 52 % 2 ^ 11 = 0 then
      finite (decide (b.toNat / 2 ^ 63 = 1)) (b.toNat % 2 ^ 52) (-1074)
    else finite (decide (b.toNat / 2 ^ 63 = 1)) (2 ^ 52 + b.toNat % 2 ^ 52)
      ((b.toNat / 2 ^ 52 % 2 ^ 11 : Nat) - 1075)) = ofUnpacked (UnpackedFloat.unpack .binary64 b)
  rw [← hsign]
  unfold UnpackedFloat.unpack
  simp only [hlast, hzero, hnone]
  split
  · -- the last exponent
    split <;> rfl
  · split
    · -- the first exponent
      rename_i hfirst
      split
      · rename_i hnone
        rw [hnone]; rfl
      · rw [ofUnpacked, hm, he, hfirst]; rfl
    · -- any other
      rw [ofUnpacked, toNat_one_append, hm, he]; rfl

/-! ### Taking apart what was packed -/

section Packing

variable {s : Sign} {m : Nat} {q : Int}

theorem pack_normal (hpos : 0 < m) (hlow : 2 ^ 52 ≤ m) (hlt : m < 2 ^ 53) (hleast : -1074 ≤ q)
    (hmost : q ≤ 971) :
    UnpackedFloat.pack .binary64 (.finite s m q hpos)
      = packComponents .binary64 s (BitVec.ofNat 11 (q + 1075).toNat) (BitVec.ofNat 52 m) := by
  have hlog : m.log2 = 52 := (Nat.log2_eq_iff hpos.ne').2 ⟨hlow, hlt⟩
  have hbias : (q + Format.binary64.exponentBias + (52 : Nat)).toNat = (q + 1075).toNat := by
    show (q + (1023 : Nat) + (52 : Nat)).toNat = _
    omega
  unfold UnpackedFloat.pack
  simp only [hbias, hlog]
  rw [if_neg (by show ¬ 2048 ≤ _; omega), if_pos (by decide)]

theorem pack_subnormal (hpos : 0 < m) (hlt : m < 2 ^ 52) :
    UnpackedFloat.pack .binary64 (.finite s m (-1074) hpos)
      = packComponents .binary64 s 0#11 (BitVec.ofNat 52 m) := by
  have hlog : m.log2 < 52 := (Nat.log2_lt hpos.ne').2 hlt
  unfold UnpackedFloat.pack
  rw [if_neg (by decide), if_neg (by show ¬ m.log2 + 1 = 53; omega)]

theorem finite_congr {m' : Nat} {q' : Int} {h : 0 < m} {h' : 0 < m'} (hm : m = m')
    (hq : q = q') : UnpackedFloat.finite s m q h = .finite s m' q' h' := by
  subst hm hq
  rfl

/-- The word of a normal double. -/
theorem unpack_normal {e : BitVec 11} {f : BitVec 52} (hlast : e ≠ -1#11) (hfirst : e ≠ 0#11) :
    UnpackedFloat.unpack .binary64 (packComponents .binary64 s e f)
      = .finite s (2 ^ 52 + f.toNat) (e.toNat - 1075)
        (Nat.add_pos_left (Nat.two_pow_pos 52) _) := by
  unfold UnpackedFloat.unpack
  simp only [UnpackedFloat.unpackMantissa_packComponents,
    UnpackedFloat.unpackExponent_packComponents, UnpackedFloat.unpackSign_packComponents,
    Sign.ofBitVec_toBitVec]
  rw [if_neg hlast, if_neg hfirst]
  exact finite_congr (toNat_one_append f) rfl

/-- The word of a subnormal double. -/
theorem unpack_subnormal {f : BitVec 52} (hpos : 0 < f.toNat) :
    UnpackedFloat.unpack .binary64 (packComponents .binary64 s 0#11 f)
      = .finite s f.toNat (-1074) hpos := by
  have hne : f ≠ 0#52 := by
    rintro rfl
    exact absurd hpos (by decide)
  unfold UnpackedFloat.unpack
  simp only [UnpackedFloat.unpackMantissa_packComponents,
    UnpackedFloat.unpackExponent_packComponents, UnpackedFloat.unpackSign_packComponents,
    Sign.ofBitVec_toBitVec]
  rw [if_neg (by decide), if_pos trivial, dif_neg hne]
  rfl

/-- **The parts of a double are read back.** -/
theorem unpack_ofParts (h : Parts m q) :
    (ofParts s h).toModel.unpack = .finite s m q h.pos := by
  have hlt := h.lt
  have hleast := h.least
  have hmost := h.most
  show UnpackedFloat.unpack .binary64 (UnpackedFloat.pack .binary64 (.finite s m q h.pos)) = _
  by_cases hlow : 2 ^ 52 ≤ m
  · -- a normal double, whose exponent is neither the first nor the last
    rw [pack_normal h.pos hlow h.lt h.least h.most, unpack_normal]
    · refine finite_congr ?_ ?_
      · rw [BitVec.toNat_ofNat]; omega
      · rw [BitVec.toNat_ofNat]; omega
    · intro heq
      have hval := congrArg BitVec.toNat heq
      rw [BitVec.toNat_ofNat] at hval
      change _ = 2047 at hval
      omega
    · intro heq
      have hval := congrArg BitVec.toNat heq
      rw [BitVec.toNat_ofNat] at hval
      change _ = 0 at hval
      omega
  · -- a subnormal double
    obtain rfl : q = -1074 := h.full.resolve_left hlow
    have hval : (BitVec.ofNat 52 m).toNat = m := by rw [BitVec.toNat_ofNat]; omega
    rw [pack_subnormal h.pos (by omega), unpack_subnormal (by rw [hval]; exact h.pos)]
    exact finite_congr hval rfl

end Packing

/-! ### The kinds of doubles -/

/-- What a word is taken apart to has the parts of a double. -/
theorem parts_of_unpack {b : BitVec Format.binary64.numBits} {s : Sign} {m : Nat} {q : Int}
    {hpos : 0 < m} (h : UnpackedFloat.unpack .binary64 b = .finite s m q hpos) : Parts m q := by
  have he := (unpackExponent b).isLt
  have hf := (unpackMantissa b).isLt
  change (unpackExponent b).toNat < 2 ^ 11 at he
  change (unpackMantissa b).toNat < 2 ^ 52 at hf
  unfold UnpackedFloat.unpack at h
  dsimp only at h
  split at h
  · -- the last exponent is no number or infinite
    split at h <;> cases h
  · rename_i hlast
    split at h
    · -- the first exponent is a zero or subnormal
      rename_i hfirst
      split at h
      · cases h
      · injection h with _ hm hq
        subst hm
        rw [hfirst] at hq
        change -1074 = q at hq
        subst hq
        exact ⟨hpos, by omega, by omega, by omega, Or.inr rfl⟩
    · rename_i hfirst
      have hlast' : (unpackExponent b).toNat ≠ 2047 := by
        intro heq
        exact hlast (BitVec.eq_of_toNat_eq heq)
      have hfirst' : (unpackExponent b).toNat ≠ 0 := by
        intro heq
        exact hfirst (BitVec.eq_of_toNat_eq heq)
      injection h with _ hm hq
      rw [toNat_one_append] at hm
      change ((unpackExponent b).toNat : Int) - 1075 = q at hq
      exact ⟨hpos, by omega, by omega, by omega, Or.inl (by omega)⟩

/-- **Every double** is not a number, infinite, a zero, or has parts. -/
theorem kinds (x : Float) :
    x = .ofModel (.pack .notANumber) ∨ (∃ s, x = .ofModel (.pack (.infinity s))) ∨
      (∃ s, x = .ofModel (.pack (.zero s))) ∨ ∃ s m q, ∃ h : Parts m q, x = ofParts s h := by
  -- a double is known by its word, and the word by what it is taken apart to
  have hpacked : x = .ofModel (.pack x.toModel.unpack) :=
    Float.toBits_inj.mp (UInt64.toBitVec_inj.mp
      (UnpackedFloat.pack_unpack_of_valid x.toModel.valid).symm)
  cases hu : x.toModel.unpack with
  | notANumber =>
    left
    rwa [hu] at hpacked
  | infinity s =>
    right; left
    exact ⟨s, by rwa [hu] at hpacked⟩
  | zero s =>
    right; right; left
    exact ⟨s, by rwa [hu] at hpacked⟩
  | finite s m q hpos =>
    right; right; right
    exact ⟨s, m, q, parts_of_unpack hu, by rwa [hu] at hpacked⟩

theorem ofFloat_ofParts {s : Sign} {m : Nat} {q : Int} (h : Parts m q) :
    ofFloat (ofParts s h) = .finite (s == .negative) m q := by
  rw [ofFloat_eq, unpack_ofParts, ofUnpacked]

/-! ### What is no number -/

theorem isNaN_unpack_packComponents {s : Sign} {e : BitVec 11} {f : BitVec 52}
    (h : e = -1#11 → f = 0#52) :
    (UnpackedFloat.unpack .binary64 (packComponents .binary64 s e f)).isNaN = false := by
  unfold UnpackedFloat.unpack
  simp only [UnpackedFloat.unpackMantissa_packComponents,
    UnpackedFloat.unpackExponent_packComponents]
  split
  · rename_i hlast
    rw [if_pos (h hlast)]
    rfl
  · split
    · split <;> rfl
    · rfl

/-- Packing makes nothing into what is no number. -/
theorem isNaN_pack {u : UnpackedFloat} (h : u.isNaN = false) :
    (Float.Model.pack u).unpack.isNaN = false := by
  show (UnpackedFloat.unpack .binary64 (UnpackedFloat.pack .binary64 u)).isNaN = false
  cases u with
  | notANumber => cases h
  | infinity s =>
    apply isNaN_unpack_packComponents
    intro _
    rfl
  | zero s =>
    apply isNaN_unpack_packComponents
    intro hlast
    exact absurd hlast (by decide)
  | finite s m q hpos =>
    unfold UnpackedFloat.pack
    dsimp only
    split
    · -- too large
      apply isNaN_unpack_packComponents
      intro _
      rfl
    · rename_i hsmall
      split
      · apply isNaN_unpack_packComponents
        intro hlast
        have hval := congrArg BitVec.toNat hlast
        rw [BitVec.toNat_ofNat] at hval
        change _ % 2048 = 2047 at hval
        change ¬ 2048 ≤ _ at hsmall
        omega
      · apply isNaN_unpack_packComponents
        intro hlast
        exact absurd hlast (by decide)

end PageWalk.Double
