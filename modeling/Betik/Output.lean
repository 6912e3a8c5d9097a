/-!
# Output

Programs print lines to a sink. A sink stands in front of a device that may refuse a line or a flush
and then says why; refused lines leave no trace in the output.
-/

namespace Betik

/-- How an output device answers: `none` accepts, `some cause` refuses. The answer to a line may
depend on the lines accepted before it, on the numbers of lines refused and of flushes before it and
on the line itself; that to a flush on the accepted lines and on the number of flushes before it. -/
structure Device where
  onLine (accepted : Array String) (refused flushes : Nat) (line : String) : Option String
  onFlush (accepted : Array String) (flushes : Nat) : Option String

namespace Device

/-- A device that accepts everything. -/
def accepting : Device where
  onLine _ _ _ _ := none
  onFlush _ _ := none

/-- A device with room for `capacity` lines that flushes only if it is not `closed`. -/
def limited (capacity : Option Nat) (closed : Bool) : Device where
  onLine accepted _ _ _ :=
    match capacity with
    | none => none
    | some room => if accepted.size < room then none else some "sink full"
  onFlush _ _ := if closed then some "sink closed" else none

end Device

/-- A device with the lines it has accepted, oldest first, and counts of what else it was asked. -/
structure Sink where
  device : Device
  lines : Array String := #[]
  refused : Nat := 0
  flushes : Nat := 0

namespace Sink

/-- Offers a line to the device; the cause is given if it refuses. -/
def write (s : Sink) (line : String) : Sink × Option String :=
  match s.device.onLine s.lines s.refused s.flushes line with
  | none => ({ s with lines := s.lines.push line }, none)
  | some cause => ({ s with refused := s.refused + 1 }, some cause)

/-- Asks the device to flush; the cause is given if it refuses. -/
def flush (s : Sink) : Sink × Option String :=
  ({ s with flushes := s.flushes + 1 }, s.device.onFlush s.lines s.flushes)

/-- The text of the lines accepted from the `start`-th on. -/
def textFrom (s : Sink) (start : Nat) : String :=
  String.join (s.lines.toList.drop start)

/-- The text of all accepted lines. -/
def text (s : Sink) : String :=
  s.textFrom 0

end Sink

end Betik
