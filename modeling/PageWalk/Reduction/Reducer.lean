/-
PageWalk/Reduction/Reducer.lean

Reducers: what takes the records of a trace one by one and ends with its
statistics.  A reducer may refuse a record; the state that it is left in
then is part of the result.
-/
import PageWalk.Record
import PageWalk.Statistics.Basic

namespace PageWalk

/-- What can take records. -/
class Reducer (σ : Type) where
  /-- Take a record. -/
  handle : Record → σ → Except Cause Unit × σ
  /-- The state in one line. -/
  describe : σ → String
  /-- What the records come to. -/
  statistics : σ → Statistics

end PageWalk
