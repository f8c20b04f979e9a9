/-
PageWalk/Design.lean

The two page table designs, and the record format in which each is traced.
-/
namespace PageWalk

/-- How the lines of a statistics section are written. -/
inductive RecordFormat where
  /-- The levels of the probes, then a frequency. -/
  | simple
  /-- The levels of the probes, then the winning probe and a frequency. -/
  | withWay
deriving DecidableEq, Inhabited

/-- A page table design. -/
inductive Design where
  /-- A radix tree: a walk makes all its probes one after the other. -/
  | radix
  /-- An elastic cuckoo table: the probes of a walk are alternatives, of
  which one holds the translation. -/
  | ecpt
deriving DecidableEq, Inhabited

namespace Design

/-- The name of a design. -/
def name : Design → String
  | radix => "radix"
  | ecpt => "ecpt"

/-- The design with a name. -/
def ofName? (name : String) : Option Design :=
  [radix, ecpt].find? fun d => d.name == name

/-- The format in which a design is traced. -/
def format : Design → RecordFormat
  | radix => .simple
  | ecpt => .withWay

end Design

end PageWalk
