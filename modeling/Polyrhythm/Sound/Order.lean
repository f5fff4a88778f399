import Polyrhythm.Number.Order
import Polyrhythm.Sound

/-!
# The order of events

Events are played in the order of their onsets, events with one onset in the order in which they
are written.
-/

namespace Polyrhythm

/-- Whether an event need not stand after another one. -/
def Event.mayPrecede (a b : Event) : Bool := !b.time.lessThan a.time

/-- Events in the order of their onsets; events with one onset keep their order. -/
def sortByTime (events : List Event) : List Event := Quantity.sortBy Event.time events

/-- Sorting keeps all events. -/
theorem sortByTime_perm (events : List Event) : (sortByTime events).Perm events :=
  Quantity.sortBy_perm ..

/-- Events whose onsets are numbers are sorted by them. -/
theorem sortByTime_of_comparable {events : List Event}
    (h : ∀ e ∈ events, e.time.isComparable = true) :
    sortByTime events = events.mergeSort Event.mayPrecede :=
  Quantity.sortBy_of_comparable h

end Polyrhythm
