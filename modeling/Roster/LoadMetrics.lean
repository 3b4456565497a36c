import Roster.Assoc

/-!
# Roster.LoadMetrics

Named load metrics of a host, added up until they are latched.
-/

namespace Roster

structure LoadStat where
  count : Nat := 0
  total : Float := 0.0

structure LoadMetrics where
  /-- `none` while nothing was recorded since the latest latch. -/
  stats? : Option (List (String × LoadStat)) := none

namespace LoadMetrics

def add (m : LoadMetrics) (key : String) (value : Float) : LoadMetrics :=
  ⟨some (Assoc.upsert key
    (fun stat =>
      let stat := stat.getD {}
      { count := stat.count + 1, total := stat.total + value })
    (m.stats?.getD []))⟩

def latch (m : LoadMetrics) : Option (List (String × LoadStat)) × LoadMetrics :=
  (m.stats?, {})

end LoadMetrics

end Roster
