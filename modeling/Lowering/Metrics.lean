/-!
# Metrics

What was counted while units were written. The counters have 64 bits.

* `Metrics` -- the counters, and the time that passed;
* `Metrics.recordDeclaration`, `Metrics.recordLines` -- counting;
* `Metrics.linesPerSecond` -- the rate.
-/

namespace Lowering

/-- A span of time: whole seconds, and nanoseconds below one second. -/
structure Elapsed where
  seconds : UInt64 := 0
  nanos : UInt32 := 0
deriving DecidableEq, Repr

/-- A span of time in seconds. -/
def Elapsed.toFloat (e : Elapsed) : Float := e.seconds.toFloat + e.nanos.toFloat / 1e9

/-- The counters of a generator. -/
structure Metrics where
  declarations : UInt64 := 0
  lines : UInt64 := 0
  elapsed : Elapsed := {}
deriving DecidableEq, Repr

namespace Metrics

/-- Counts a declaration. -/
def recordDeclaration (m : Metrics) : Metrics := { m with declarations := m.declarations + 1 }

/-- Counts lines. -/
def recordLines (m : Metrics) (count : UInt64) : Metrics := { m with lines := m.lines + count }

/-- Lines per second. Without time there is no rate. -/
def linesPerSecond (m : Metrics) : Float :=
  if m.elapsed.toFloat == 0.0 then 0.0 else m.lines.toFloat / m.elapsed.toFloat

end Metrics

end Lowering
