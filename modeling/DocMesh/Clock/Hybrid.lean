/-
# The hybrid logical clock of a node

A clock issues strictly increasing timestamps for one node, whatever its wall clock does. It remembers
only the greatest timestamp that it issued or observed.
-/
import DocMesh.Clock.Timestamp

namespace DocMesh

/-- The clock of one node. -/
structure Clock where
  /-- The node that owns the clock. -/
  node : String
  /-- The last timestamp issued or observed. -/
  last : Timestamp
  deriving DecidableEq, Inhabited

namespace Clock

/-- The clock of a node whose log ends at `latest`. With an empty log, or one that ends before the epoch, the
clock starts at the wall-clock time `now`. -/
def seeded (node : String) (latest : Timestamp) (now : Int64) : Clock :=
  ⟨node, if 0 < latest.physical then latest else ⟨now, 0, node⟩⟩

/-- The next time, without passing the greatest one that can be written. -/
def nextMillisecond (t : Int64) : Int64 :=
  if t = Int64.maxValue then t else t + 1

/-- The timestamp that follows `last` on node `node` at wall-clock time `now`. A used-up counter borrows the next
millisecond. -/
def next (node : String) (last : Timestamp) (now : Int64) : Timestamp :=
  if last.physical < now then ⟨now, 0, node⟩
  else if last.counter = Int32.maxValue then ⟨nextMillisecond last.physical, 0, node⟩
  else ⟨last.physical, last.counter + 1, node⟩

/-- Issues a timestamp at wall-clock time `now`. -/
def tick (c : Clock) (now : Int64) : Timestamp × Clock :=
  let t := next c.node c.last now
  (t, { c with last := t })

/-- Takes note of a timestamp from another node: later ticks exceed it. -/
def observe (c : Clock) (t : Timestamp) : Clock :=
  if c.last < t then { c with last := t } else c

/-- Takes note of the greatest of some timestamps. -/
def observeAll (c : Clock) (ts : List Timestamp) : Clock :=
  ts.foldl observe c

end Clock

end DocMesh
