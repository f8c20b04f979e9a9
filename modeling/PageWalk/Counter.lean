/-
PageWalk/Counter.lean

Counters of a fixed number of bits.  A counter never wraps: a sum that
does not fit is refused (`add?`), and whoever adds decides what a refusal
means.  The product of two counters always fits one of both widths
together (`mul`), which is why latencies weighted by frequencies are kept
in 128 bits.

Main statements: `add?` and `ofNat?` succeed exactly when the result fits
(`add?_eq_some_iff`, `ofNat?_eq_some_iff`).
-/
namespace PageWalk

/-- A natural number below `2 ^ bits`. -/
@[ext] structure Counter (bits : Nat) where
  val : Nat
  val_lt : val < Nat.pow 2 bits
deriving DecidableEq

/-- What frequencies, costs and latencies are counted in. -/
abbrev Count := Counter 64

/-- What sums of latencies weighted by frequencies are counted in. -/
abbrev Total := Counter 128

namespace Counter

variable {bits : Nat}

/-- A number that is known to fit. -/
def ofNat (n : Nat) (h : n < Nat.pow 2 bits := by decide) : Counter bits := ⟨n, h⟩

/-- A number, if it fits. -/
def ofNat? (n : Nat) : Option (Counter bits) :=
  if h : n < Nat.pow 2 bits then some ⟨n, h⟩ else none

/-- The counter of a single thing. -/
def one : Count := .ofNat 1

instance : Zero (Counter bits) := ⟨⟨0, Nat.two_pow_pos bits⟩⟩
instance : Inhabited (Counter bits) := ⟨0⟩
instance : ToString (Counter bits) := ⟨fun c => toString c.val⟩
instance : Ord (Counter bits) := ⟨fun a b => compare a.val b.val⟩

/-- The sum, if it fits. -/
def add? (a b : Counter bits) : Option (Counter bits) := ofNat? (a.val + b.val)

/-- The product of two counters, in their common width. -/
def mul (a b : Count) : Total :=
  ⟨a.val * b.val, by
    have h : a.val * b.val < Nat.pow 2 64 * Nat.pow 2 64 :=
      Nat.mul_lt_mul_of_lt_of_lt a.val_lt b.val_lt
    exact Nat.lt_of_lt_of_eq h rfl⟩

/-- How far `b` is below `a`; zero if it is above. -/
def sub (a b : Counter bits) : Counter bits :=
  ⟨a.val - b.val, Nat.lt_of_le_of_lt (Nat.sub_le ..) a.val_lt⟩

/-- The larger of two counters. -/
def max (a b : Counter bits) : Counter bits := if a.val ≤ b.val then b else a

/-! ### What the operations do to the value -/

@[simp] theorem val_zero : (0 : Counter bits).val = 0 := rfl

@[simp] theorem val_ofNat (n : Nat) (h : n < Nat.pow 2 bits) : (ofNat n h).val = n := rfl

@[simp] theorem val_mul (a b : Count) : (mul a b).val = a.val * b.val := rfl

@[simp] theorem val_sub (a b : Counter bits) : (a.sub b).val = a.val - b.val := rfl

@[simp] theorem val_max (a b : Counter bits) : (a.max b).val = Nat.max a.val b.val := by
  simp only [max, Nat.max_def]; split <;> rfl

theorem ofNat?_eq_some_iff {n : Nat} {c : Counter bits} : ofNat? n = some c ↔ c.val = n := by
  constructor
  · intro h
    unfold ofNat? at h
    split at h <;> cases h
    rfl
  · rintro rfl
    exact dif_pos c.val_lt

theorem ofNat?_eq_none_iff {n : Nat} :
    (ofNat? n : Option (Counter bits)) = none ↔ Nat.pow 2 bits ≤ n := by
  unfold ofNat?
  split
  · rename_i h
    exact iff_of_false nofun (Nat.not_le_of_lt h)
  · rename_i h
    exact iff_of_true rfl (Nat.le_of_not_lt h)

theorem add?_eq_some_iff {a b c : Counter bits} :
    a.add? b = some c ↔ c.val = a.val + b.val := ofNat?_eq_some_iff

theorem add?_eq_none_iff {a b : Counter bits} : a.add? b = none ↔ Nat.pow 2 bits ≤ a.val + b.val :=
  ofNat?_eq_none_iff

/-! ### Order -/

theorem compare_eq (a b : Counter bits) : compare a b = compare a.val b.val := rfl

instance : Std.TransOrd (Counter bits) where
  eq_swap := by intro a b; simp only [compare_eq]; exact Std.OrientedCmp.eq_swap
  isLE_trans := by
    intro a b c
    simp only [compare_eq]
    exact Std.TransCmp.isLE_trans

instance : Std.LawfulEqOrd (Counter bits) where
  eq_of_compare := by
    intro a b h
    exact Counter.ext (Std.LawfulEqOrd.eq_of_compare (α := Nat) h)
  compare_self := by intro a; simp only [compare_eq]; exact Std.ReflCmp.compare_self

end Counter

end PageWalk
