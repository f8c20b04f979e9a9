/-
PageWalk/Proofs/Text/Numeral.lean

Numerals are read back: the digits of a number spell it, zeros in front of
them change nothing, and zeros after them multiply.  Exactly the texts that
spell a number that fits are read as counters (`parse?_eq_some_iff`).
-/
import PageWalk.Text.Numeral
import Mathlib.Algebra.Group.Nat.Defs

namespace PageWalk

namespace Text

/-! ### Rows of digits -/

theorem numeralValue_eq (ds : List Char) : numeralValue ds = Nat.ofDigitChars 10 ds 0 := by
  rw [Nat.ofDigitChars_eq_foldl]
  show ds.foldl (fun n d => n * 10 + (d.toNat - '0'.toNat)) 0 = _
  simp only [Nat.mul_comm]

theorem numeralValue_toDigits (n : Nat) : numeralValue (Nat.toDigits 10 n) = n := by
  rw [numeralValue_eq, Nat.ofDigitChars_ten_toDigits]

theorem numeralValue_zeros_append (n : Nat) (ds : List Char) :
    numeralValue (List.replicate n '0' ++ ds) = numeralValue ds := by
  rw [numeralValue_eq, numeralValue_eq, Nat.ofDigitChars_append, Nat.ofDigitChars_replicate_zero,
    Nat.mul_zero]

theorem numeralValue_append_zeros (ds : List Char) (n : Nat) :
    numeralValue (ds ++ List.replicate n '0') = 10 ^ n * numeralValue ds := by
  rw [numeralValue_eq, numeralValue_eq, Nat.ofDigitChars_append, Nat.ofDigitChars_replicate_zero]

/-! ### The digits of a number -/

theorem toList_toString (n : Nat) : (toString n).toList = Nat.toDigits 10 n := Nat.toList_repr

theorem length_toString (n : Nat) : (toString n).length = (Nat.toDigits 10 n).length := by
  rw [← String.length_toList, toList_toString]

/-- The digits of a number: digits, and at least one. -/
theorem toDigits_cons (n : Nat) :
    ∃ d ds, Nat.toDigits 10 n = d :: ds ∧ d.isDigit = true ∧ ds.all Char.isDigit = true := by
  have hall : ∀ c ∈ Nat.toDigits 10 n, c.isDigit = true := by
    intro c hc
    exact Nat.isDigit_of_mem_toDigits (by decide) (by decide) hc
  obtain ⟨d, ds, h⟩ := List.exists_cons_of_ne_nil (Nat.toDigits_ne_nil (n := n) (b := 10))
  rw [h] at hall
  refine ⟨d, ds, h, hall d List.mem_cons_self, ?_⟩
  rw [List.all_eq_true]
  intro c hc
  exact hall c (List.mem_cons_of_mem _ hc)

theorem numeral?_toDigits (n : Nat) : numeral? (Nat.toDigits 10 n) = some n := by
  obtain ⟨d, ds, h, hd, hds⟩ := toDigits_cons n
  have hvalue := numeralValue_toDigits n
  rw [h] at hvalue ⊢
  unfold numeral?
  rw [List.all_cons, hd, hds, hvalue]
  rfl

theorem ne_of_isDigit {c d : Char} (hc : c.isDigit = true) (hd : d.isDigit = false) : c ≠ d := by
  rintro rfl
  rw [hc] at hd
  cases hd

theorem dropPlus_of_isDigit {d : Char} {ds : List Char} (hd : d.isDigit = true) :
    dropPlus (d :: ds) = d :: ds := by
  unfold dropPlus
  split
  · rename_i h
    injection h with h
    exact absurd h (ne_of_isDigit hd rfl)
  · rfl

end Text

/-! ### Counters -/

/-- A text spells a number: it is a row of digits of that value, with or
without one plus sign in front. -/
def Text.Spells (cs : List Char) (n : Nat) : Prop :=
  ∃ digits, (cs = digits ∨ cs = '+' :: digits) ∧ digits ≠ [] ∧ (∀ d ∈ digits, d.isDigit = true) ∧
    Nat.ofDigitChars 10 digits 0 = n

theorem Text.numeral?_eq_some_iff {ds : List Char} {n : Nat} :
    numeral? ds = some n ↔
      ds ≠ [] ∧ (∀ d ∈ ds, d.isDigit = true) ∧ Nat.ofDigitChars 10 ds 0 = n := by
  unfold numeral?
  rw [← numeralValue_eq, ← List.all_eq_true, ← and_assoc]
  simp

theorem Text.spells_iff {cs : List Char} {n : Nat} :
    Spells cs n ↔ numeral? (dropPlus cs) = some n := by
  rw [numeral?_eq_some_iff]
  constructor
  · rintro ⟨digits, rfl | rfl, hne, hdigits, hvalue⟩
    · -- the first digit is no plus sign
      obtain ⟨d, ds, rfl⟩ := List.exists_cons_of_ne_nil hne
      rw [dropPlus_of_isDigit (hdigits d List.mem_cons_self)]
      exact ⟨hne, hdigits, hvalue⟩
    · exact ⟨hne, hdigits, hvalue⟩
  · rintro ⟨hne, hdigits, hvalue⟩
    refine ⟨dropPlus cs, ?_, hne, hdigits, hvalue⟩
    unfold dropPlus
    split
    · exact Or.inr rfl
    · exact Or.inl rfl

namespace Counter

theorem parse?_eq_some_iff {bits : Nat} {cs : List Char} {c : Counter bits} :
    parse? cs = some c ↔ Text.Spells cs c.val := by
  rw [Text.spells_iff, parse?, Option.bind_eq_some_iff]
  constructor
  · rintro ⟨n, hn, hc⟩
    rw [hn, ofNat?_eq_some_iff.1 hc]
  · intro h
    exact ⟨c.val, h, ofNat?_eq_some_iff.2 rfl⟩

/-- **Counters are read back.** -/
theorem parse?_toString {bits : Nat} (c : Counter bits) :
    parse? (toString c).toList = some c := by
  obtain ⟨d, ds, h, hd, -⟩ := Text.toDigits_cons c.val
  show (Text.numeral? (Text.dropPlus (toString c.val).toList)).bind ofNat? = _
  rw [Text.toList_toString, h, Text.dropPlus_of_isDigit hd, ← h, Text.numeral?_toDigits]
  exact ofNat?_eq_some_iff.2 rfl

end Counter

end PageWalk
