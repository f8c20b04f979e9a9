/-
PageWalk/Costs.lean

What a probe costs at each level, in cycles, and what a cuckoo walk costs
on top of its probes.  An unknown label costs nothing.  Sums that no
counter can hold are errors.
-/
import PageWalk.Error
import PageWalk.Json.Fields
import PageWalk.Level

namespace PageWalk

/-! ### Sums that may not fit -/

namespace Counter

/-- The sum of two counters. -/
def plus {bits : Nat} (a b : Counter bits) : Except Cause (Counter bits) :=
  match a.add? b with
  | some c => .ok c
  | none => .error .sumOverflow

/-- The sum of a list of counters. -/
def sum {bits : Nat} (cs : List (Counter bits)) : Except Cause (Counter bits) :=
  cs.foldlM plus 0

theorem plus_eq_ok_iff {bits : Nat} {a b c : Counter bits} :
    a.plus b = .ok c ↔ c.val = a.val + b.val := by
  rw [← add?_eq_some_iff]
  unfold plus
  split <;> simp_all

end Counter

/-! ### Costs of probes -/

/-- The cost of a probe at each level. -/
structure Costs where
  zero : Count
  l1 : Count
  l2 : Count
  llc : Count
  pwc : Count
  memory : Count
deriving DecidableEq

namespace Costs

/-- The cost of a probe at a level. -/
def cost (c : Costs) : Level → Count
  | .zero => c.zero
  | .l1 => c.l1
  | .l2 => c.l2
  | .llc => c.llc
  | .pwc => c.pwc
  | .memory => c.memory

/-- The cost of a probe, which may have an unknown label. -/
def probeCost (c : Costs) : Option Level → Count
  | some level => c.cost level
  | none => 0

/-- The costs with another cost of main memory. -/
def withMemory (c : Costs) (memory : Count) : Costs := { c with memory }

/-- The names of the levels in files. -/
def fieldSpecs : List Json.FieldSpec :=
  [{ name := "zero" }, { name := "l1" }, { name := "l2" }, { name := "llc" }, { name := "pwc" },
    { name := "memory" }]

/-- The costs that a json value gives. -/
def ofJson? (j : Json) : Option Costs := do
  match ← j.fields? true fieldSpecs with
  | [zero, l1, l2, llc, pwc, memory] =>
    return ⟨← Json.field? Json.counter? zero, ← Json.field? Json.counter? l1,
      ← Json.field? Json.counter? l2, ← Json.field? Json.counter? llc,
      ← Json.field? Json.counter? pwc, ← Json.field? Json.counter? memory⟩
  | _ => none

/-- The json value of costs. -/
def toJson (c : Costs) : Json :=
  .ofMembers [("zero", .ofCounter c.zero), ("l1", .ofCounter c.l1), ("l2", .ofCounter c.l2),
    ("llc", .ofCounter c.llc), ("pwc", .ofCounter c.pwc), ("memory", .ofCounter c.memory)]

end Costs

/-! ### Overheads of cuckoo walks -/

/-- What a cuckoo walk costs on top of its probes. -/
structure Overheads where
  /-- Computing the hash. -/
  hash : Count
  /-- Looking up the walk cache of the upper directory. -/
  pudCwc : Count
  /-- Looking up the walk cache of the middle directory. -/
  pmdCwc : Count
deriving DecidableEq

namespace Overheads

/-- The overhead if one walk cache is looked up after the other. -/
def serial (o : Overheads) : Except Cause Count := do
  (← o.hash.plus o.pudCwc).plus o.pmdCwc

/-- The overhead if both walk caches are looked up at once. -/
def parallel (o : Overheads) : Except Cause Count :=
  o.hash.plus (o.pudCwc.max o.pmdCwc)

/-- The names of the overheads in files. -/
def fieldSpecs : List Json.FieldSpec :=
  [{ name := "hash" }, { name := "pud_cwc" }, { name := "pmd_cwc" }]

/-- The overheads that a json value gives. -/
def ofJson? (j : Json) : Option Overheads := do
  match ← j.fields? true fieldSpecs with
  | [hash, pudCwc, pmdCwc] =>
    return ⟨← Json.field? Json.counter? hash, ← Json.field? Json.counter? pudCwc,
      ← Json.field? Json.counter? pmdCwc⟩
  | _ => none

/-- The json value of overheads. -/
def toJson (o : Overheads) : Json :=
  .ofMembers [("hash", .ofCounter o.hash), ("pud_cwc", .ofCounter o.pudCwc),
    ("pmd_cwc", .ofCounter o.pmdCwc)]

end Overheads

end PageWalk
