/-
# The change feed

Every applied batch is announced as one event that names the collections it touched. The feed keeps the
latest events only: a subscriber that falls too far behind is told how many events it has missed, and goes
on with the oldest one that is kept.
-/

namespace DocMesh

/-- The distinct collections that a batch touched, in the order in which they were met. -/
abbrev ChangeEvent := List String

/-- The feed of a store. -/
structure ChangeFeed where
  /-- How many events have been published. -/
  published : Nat := 0
  /-- The events that are kept, the latest first. -/
  recent : List ChangeEvent := []
  /-- Will there be no more events? -/
  closed : Bool := false
  deriving DecidableEq, Inhabited

/-- The place of a subscriber in the feed. -/
structure Subscription where
  /-- How many events were published before the next one to receive. -/
  position : Nat
  deriving DecidableEq, Inhabited

/-- What a subscriber finds when it looks for the next event. -/
inductive Received where
  /-- The next event. -/
  | event (collections : ChangeEvent)
  /-- So many events are lost; the next look finds the oldest one that is kept. -/
  | lagged (missed : Nat)
  /-- There is no event yet. -/
  | empty
  /-- There will be no event any more. -/
  | closed
  deriving DecidableEq, Inhabited

namespace ChangeFeed

/-- How many events are kept. -/
def capacity : Nat := 256

/-- The names without repetitions, in the order of their first places. -/
def distinct (names : List String) : List String :=
  names.foldl (fun seen name => if seen.contains name then seen else seen ++ [name]) []

/-- Announces a batch that touched the given collections. A batch that touched none is no event. -/
def publish (f : ChangeFeed) (touched : List String) : ChangeFeed :=
  match distinct touched with
  | [] => f
  | event => { f with published := f.published + 1, recent := (event :: f.recent).take capacity }

/-- A subscriber that receives the events from now on. -/
def subscribe (f : ChangeFeed) : Subscription := ⟨f.published⟩

/-- Ends the feed. Events that are kept can still be received. -/
def close (f : ChangeFeed) : ChangeFeed := { f with closed := true }

/-- What the subscriber finds, and its place afterwards. -/
def receive (f : ChangeFeed) (s : Subscription) : Received × Subscription :=
  let behind := f.published - s.position
  if f.recent.length < behind then
    (.lagged (behind - f.recent.length), ⟨f.published - f.recent.length⟩)
  else
    match behind with
    | 0 => (if f.closed then .closed else .empty, s)
    | n + 1 => (.event (f.recent.getD n []), ⟨s.position + 1⟩)

end ChangeFeed

end DocMesh
