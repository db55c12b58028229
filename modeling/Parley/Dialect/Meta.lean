/-! # Bookkeeping of dialects

  What every dialect carries besides its content: the tracker that correlates a
  question with its answer, the peer it comes from or goes to, and the cellet it
  is bound to.
-/

namespace Parley

/-- The tracker of a dialect that was given none. -/
def defaultTracker : String := "none"

/-- The bookkeeping of a dialect. -/
structure Meta where
  /-- Correlates what belongs together. -/
  tracker : String := defaultTracker
  /-- The peer of origin or destination. -/
  owner : Option String := none
  /-- The cellet the dialect is bound to. -/
  cellet : Option String := none
deriving DecidableEq, Repr

end Parley
