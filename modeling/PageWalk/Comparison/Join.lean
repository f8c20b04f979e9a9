/-
PageWalk/Comparison/Join.lean

Joining tables by benchmark.  Both must list the same benchmarks; what
either lists alone is told.
-/
import PageWalk.Error
import PageWalk.SortedMap

namespace PageWalk

variable {α β : Type}

/-- The keys of `left` that `right` lacks. -/
def keysOnlyIn (left : SortedMap String α) (right : SortedMap String β) : List String :=
  left.keys.filter fun k => !right.contains k

/-- The values of both tables at each key. -/
def join (left : SortedMap String α) (right : SortedMap String β) :
    Except Cause (SortedMap String (α × β)) :=
  let onlyLeft := keysOnlyIn left right
  let onlyRight := keysOnlyIn right left
  if onlyLeft.isEmpty && onlyRight.isEmpty then
    .ok (left.filterMap fun k a => (right.get? k).map fun b => (a, b))
  else .error (.keyMismatch onlyLeft onlyRight)

end PageWalk
