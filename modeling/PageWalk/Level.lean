/-
PageWalk/Level.lean

The levels of the memory hierarchy at which a probe of a page walk can be
resolved, nearest first, and their labels.  `ofLabel?` reads exactly the
six labels (`ofLabel?_eq_some_iff`).
-/
namespace PageWalk

/-- Where a probe was resolved. -/
inductive Level where
  /-- No access was necessary. -/
  | zero
  | l1
  | l2
  /-- The last-level cache. -/
  | llc
  /-- The page-walk cache. -/
  | pwc
  /-- Main memory. -/
  | memory
deriving DecidableEq, Inhabited

namespace Level

/-- Every level, nearest first. -/
def all : List Level := [zero, l1, l2, llc, pwc, memory]

/-- The place of a level in `all`. -/
def rank : Level → Nat
  | zero => 0
  | l1 => 1
  | l2 => 2
  | llc => 3
  | pwc => 4
  | memory => 5

/-- The label that traces use. -/
def label : Level → String
  | zero => "ZERO"
  | l1 => "L1"
  | l2 => "L2"
  | llc => "LLC"
  | pwc => "PWC"
  | memory => "MEMORY"

/-- The level with a label. -/
def ofLabel? (label : String) : Option Level := all.find? (·.label == label)

instance : Ord Level := ⟨fun a b => compare a.rank b.rank⟩

theorem mem_all (l : Level) : l ∈ all := by cases l <;> simp [all]

theorem label_injective {a b : Level} (h : a.label = b.label) : a = b := by
  revert h; cases a <;> cases b <;> decide

theorem rank_injective {a b : Level} (h : a.rank = b.rank) : a = b := by
  revert h; cases a <;> cases b <;> decide

theorem ofLabel?_eq_some_iff {s : String} {l : Level} : ofLabel? s = some l ↔ l.label = s := by
  constructor
  · intro h
    simpa using List.find?_some h
  · rintro rfl
    cases l <;> rfl

/-! ### Order -/

theorem compare_eq (a b : Level) : compare a b = compare a.rank b.rank := rfl

instance : Std.TransOrd Level where
  eq_swap := by intro a b; simp only [compare_eq]; exact Std.OrientedCmp.eq_swap
  isLE_trans := by
    intro a b c
    simp only [compare_eq]
    exact Std.TransCmp.isLE_trans

instance : Std.LawfulEqOrd Level where
  eq_of_compare := by
    intro a b h
    exact rank_injective (Std.LawfulEqOrd.eq_of_compare (α := Nat) h)
  compare_self := by intro a; simp only [compare_eq]; exact Std.ReflCmp.compare_self

end Level

end PageWalk
